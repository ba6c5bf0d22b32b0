import ResourceServer.Foundation.Table
import ResourceServer.Service.Services

/-!
# The stores behind the services

The PostgreSQL tables, the Redis cache, the object store and the static error strings,
with what each action does to them. Services may be served one after another (`Step`) or
interleaved action by action (`Pool.Step` over `World.does`).
-/

namespace ResourceServer
namespace Service

open CString

/-- A row of `resources`. -/
structure Row where
  id : ℤ
  userId : ℤ
  title : Bytes
  content : Bytes
  isFile : Bool
  deriving DecidableEq, Repr

namespace Row

/-- The columns the services select. -/
def resource (r : Row) : Resource := ⟨r.id, r.title, r.content, r.isFile⟩

/-- `WHERE user_id = u`. -/
def ownedBy (u : ℤ) (r : Row) : Bool := r.userId = u

/-- `WHERE user_id = u AND id = i`. -/
def isAt (u i : ℤ) (r : Row) : Bool := r.userId = u && r.id = i

theorem isAt_iff {u i : ℤ} {r : Row} : r.isAt u i = true ↔ r.userId = u ∧ r.id = i := by
  simp [isAt]

end Row

/-- The order in which a `SELECT` lists rows. -/
structure RowOrder where
  sort : List Row → List Row
  perm : ∀ rows, (sort rows).Perm rows

inductive Store where
  | resources | users | cache | msg | objects
  deriving DecidableEq, Repr

def Action.writes : Action → Option Store
  | .insertResource .. | .updateResource .. | .deleteResource .. => some .resources
  | .insertUser .. => some .users
  | .redisSetex .. | .redisDel _ => some .cache
  | .clearMsg _ | .assignMsg .. => some .msg
  | .removeObject .. => some .objects
  | _ => none

structure World where
  resources : Table Row Row.id
  users : Table User User.id
  cache : Bytes → Option Bytes
  msg : Dao → Bytes
  objects : Set (Bytes × Bytes)

/-- The services that may fail. -/
structure Faults where
  redis : Prop
  database : Prop
  storage : Prop

namespace Faults

def any : Faults := ⟨True, True, True⟩

def never : Faults := ⟨False, False, False⟩

/-- A statement that fails changes nothing. -/
def Refuses {α : Type} (faults : Faults) (w : World) (result : Except DbFailure α) (w' : World) :
    Prop := faults.database ∧ (∃ f, result = .error f) ∧ w' = w

section Results

variable {ε α : Type} {x y : α} {f : ε} {done fault same : Prop}

/-- A store that reports an error has failed. -/
theorem of_error (h : ((.error f : Except ε α) = .ok x ∧ done) ∨
    fault ∧ (∃ g, (.error f : Except ε α) = .error g) ∧ same) : fault ∧ same := by
  rcases h with ⟨hok, -⟩ | ⟨hfault, -, hsame⟩
  · cases hok
  · exact ⟨hfault, hsame⟩

/-- A store that reports a result has done what was asked. -/
theorem of_ok (h : ((.ok y : Except ε α) = .ok x ∧ done) ∨
    fault ∧ (∃ g, (.ok y : Except ε α) = .error g) ∧ same) : y = x ∧ done := by
  rcases h with ⟨hok, hdone⟩ | ⟨-, ⟨g, hg⟩, -⟩
  · exact ⟨Except.ok.inj hok, hdone⟩
  · cases hg

end Results

end Faults

namespace World

variable (w : World)

def owned (u : ℤ) : List Row := w.resources.select (·.ownedBy u)

def found (u i : ℤ) : List Row := w.resources.select (·.isAt u i)

def store (key value : Bytes) : World :=
  { w with cache := Function.update w.cache key (some value) }

def evict (key : Bytes) : World := { w with cache := Function.update w.cache key none }

def setMsg (d : Dao) (text : Bytes) : World := { w with msg := Function.update w.msg d text }

def insertRow (r : Row) (hnext : w.resources.nextId ≤ r.id) (hpos : 0 < r.id)
    (hmax : r.id ≤ intMax) : World :=
  { w with resources := w.resources.insert r hnext hpos hmax }

def updateRows (title content : Bytes) (u i : ℤ) : World :=
  { w with
    resources := w.resources.modify (·.isAt u i)
      (fun r => { r with title := title, content := content }) fun _ => rfl }

def deleteRows (u i : ℤ) : World := { w with resources := w.resources.remove (·.isAt u i) }

/-- The effect of each action, and the results it may have. -/
def does (faults : Faults) (order : RowOrder) : Env actions World
  | .redisGet key, w, value, w' => w' = w ∧ (value = w.cache key ∨ faults.redis ∧ value = none)
  | .redisSetex key _ value, w, ok, w' =>
    ok = true ∧ w' = w.store key value ∨
      faults.redis ∧ ok = false ∧ (w' = w ∨ w' = w.store key value)
  | .redisDel key, w, ok, w' =>
    ok = true ∧ w' = w.evict key ∨ faults.redis ∧ ok = false ∧ (w' = w ∨ w' = w.evict key)
  | .insertResource u title content isFile, w, result, w' =>
    (result = .ok () ∧ ∃ id hnext hpos hmax,
      w' = w.insertRow ⟨id, u, title, content, isFile⟩ hnext hpos hmax) ∨ faults.Refuses w result w'
  | .selectResources u, w, result, w' =>
    (result = .ok ((order.sort (w.owned u)).map Row.resource) ∧ w' = w) ∨ faults.Refuses w result w'
  | .selectResource u i, w, result, w' =>
    (result = .ok ((w.found u i).head?.map Row.resource) ∧ w' = w) ∨ faults.Refuses w result w'
  | .updateResource title content u i, w, result, w' =>
    (result = .ok (w.found u i).length ∧ w' = w.updateRows title content u i) ∨
      faults.Refuses w result w'
  | .deleteResource i u, w, result, w' =>
    (result = .ok (w.found u i).length ∧ w' = w.deleteRows u i) ∨ faults.Refuses w result w'
  | .insertUser name email password, w, result, w' =>
    (result = .ok () ∧ (∀ user ∈ w.users.rows, user.email ≠ email) ∧ ∃ id hnext hpos hmax,
      w' = { w with users := w.users.insert ⟨id, name, email, password⟩ hnext hpos hmax })
      ∨ faults.Refuses w result w'
  | .selectUser email, w, result, w' =>
    (result = .ok (w.users.select (·.email = email)).head? ∧ w' = w) ∨ faults.Refuses w result w'
  | .clearMsg d, w, _, w' => w' = w.setMsg d []
  | .assignMsg d text, w, _, w' => w' = w.setMsg d text
  | .readMsg d, w, text, w' => text = w.msg d ∧ w' = w
  | .epochMillis, w, _, w' => w' = w
  | .createJwt _, w, _, w' => w' = w
  | .presign .., w, result, w' => (faults.storage ∨ ∃ url, result = .ok url) ∧ w' = w
  | .removeObject _ bucket key, w, result, w' =>
    result = .ok () ∧ w' = { w with objects := w.objects \ {(bucket, key)} } ∨
      faults.storage ∧ (∃ f, result = .error f) ∧ w' = w

/-- `w'` differs from `w` in no store but `written`. -/
structure Frame (written : Option Store) (w w' : World) : Prop where
  resources : written ≠ some .resources → w'.resources = w.resources
  users : written ≠ some .users → w'.users = w.users
  cache : written ≠ some .cache → w'.cache = w.cache
  msg : written ≠ some .msg → w'.msg = w.msg
  objects : written ≠ some .objects → w'.objects = w.objects

def initial (users : Table User User.id) (objects : Set (Bytes × Bytes)) : World where
  resources := .empty Row Row.id
  users := users
  cache := fun _ => none
  msg := fun _ => []
  objects := objects

end World

/-- The statements that change rows of `resources`. -/
def Action.writesRows : Action → Bool
  | .insertResource .. | .updateResource .. | .deleteResource .. => true
  | _ => false

namespace World

namespace Frame

theorem refl (written : Option Store) (w : World) : Frame written w w :=
  ⟨fun _ => rfl, fun _ => rfl, fun _ => rfl, fun _ => rfl, fun _ => rfl⟩

theorem of_resources (w : World) (resources : Table Row Row.id) :
    Frame (some .resources) w { w with resources := resources } :=
  ⟨fun h => absurd rfl h, fun _ => rfl, fun _ => rfl, fun _ => rfl, fun _ => rfl⟩

theorem of_users (w : World) (users : Table User User.id) :
    Frame (some .users) w { w with users := users } :=
  ⟨fun _ => rfl, fun h => absurd rfl h, fun _ => rfl, fun _ => rfl, fun _ => rfl⟩

theorem of_cache (w : World) (cache : Bytes → Option Bytes) :
    Frame (some .cache) w { w with cache := cache } :=
  ⟨fun _ => rfl, fun _ => rfl, fun h => absurd rfl h, fun _ => rfl, fun _ => rfl⟩

theorem of_msg (w : World) (msg : Dao → Bytes) : Frame (some .msg) w { w with msg := msg } :=
  ⟨fun _ => rfl, fun _ => rfl, fun _ => rfl, fun h => absurd rfl h, fun _ => rfl⟩

theorem of_objects (w : World) (objects : Set (Bytes × Bytes)) :
    Frame (some .objects) w { w with objects := objects } :=
  ⟨fun _ => rfl, fun _ => rfl, fun _ => rfl, fun _ => rfl, fun h => absurd rfl h⟩

end Frame

@[simp] theorem store_cache (w : World) (key value : Bytes) :
    (w.store key value).cache key = some value := Function.update_self ..

theorem mem_insertRow {w : World} {r row : Row} {hnext : w.resources.nextId ≤ r.id} {hpos : 0 < r.id}
    {hmax : r.id ≤ intMax} :
    row ∈ (w.insertRow r hnext hpos hmax).resources.rows ↔ row ∈ w.resources.rows ∨ row = r :=
  Table.mem_insert hnext hpos hmax

theorem mem_deleteRows {w : World} {u i : ℤ} {row : Row} :
    row ∈ (w.deleteRows u i).resources.rows ↔ row ∈ w.resources.rows ∧ row.isAt u i = false :=
  Table.mem_remove

theorem notMem_deleteRows {w : World} {u i : ℤ} {row : Row} (hrow : row ∈ w.found u i) :
    row ∉ (w.deleteRows u i).resources.rows := by
  intro hmem
  obtain ⟨-, hleft⟩ := mem_deleteRows.mp hmem
  obtain ⟨-, hat⟩ := Table.mem_select.mp hrow
  rw [hat] at hleft
  cases hleft

theorem mem_updateRows {w : World} {title content : Bytes} {u i : ℤ} {row : Row} :
    row ∈ (w.updateRows title content u i).resources.rows ↔ ∃ r ∈ w.resources.rows,
      row = if r.isAt u i then { r with title := title, content := content } else r :=
  Table.mem_modify (f := fun r : Row => { r with title := title, content := content }) fun _ => rfl

theorem found_self {w : World} {r : Row} (hr : r ∈ w.resources.rows) :
    w.found r.userId r.id = [r] :=
  Table.select_eq_singleton hr (Row.isAt_iff.mpr ⟨rfl, rfl⟩) fun _ h => (Row.isAt_iff.mp h).2

theorem found_of_mem {w : World} {u i : ℤ} {r : Row} (hr : r ∈ w.found u i) : w.found u i = [r] := by
  obtain ⟨hmem, hat⟩ := Table.mem_select.mp hr
  obtain ⟨rfl, rfl⟩ := Row.isAt_iff.mp hat
  exact found_self hmem

theorem mem_of_found {w : World} {u i : ℤ} {r : Row} (hfound : w.found u i = [r]) :
    r ∈ w.resources.rows ∧ r.userId = u ∧ r.id = i := by
  have hr : r ∈ w.found u i := by
    rw [hfound]
    exact List.mem_singleton.mpr rfl
  obtain ⟨hmem, hat⟩ := Table.mem_select.mp hr
  exact ⟨hmem, Row.isAt_iff.mp hat⟩

theorem updateRows_eq_self {w : World} {title content : Bytes} {u i : ℤ} (h : w.found u i = []) :
    w.updateRows title content u i = w := by
  rw [World.updateRows, Table.modify_of_select_eq_nil h]

theorem deleteRows_eq_self {w : World} {u i : ℤ} (h : w.found u i = []) : w.deleteRows u i = w := by
  rw [World.deleteRows, Table.remove_of_select_eq_nil h]

variable {faults : Faults} {order : RowOrder} {a : Action} {w w' : World} {r : a.Ret}

/-- An action leaves the stores as they are, except the one it writes. -/
theorem does_frame (h : does faults order a w r w') : Frame a.writes w w' := by
  have hsame (hw : w' = w) : Frame a.writes w w' := by
    rw [hw]
    exact .refl _ w
  cases a with
  | redisGet => exact hsame h.1
  | readMsg | presign => exact hsame h.2
  | epochMillis | createJwt => exact hsame h
  | clearMsg | assignMsg => exact h ▸ .of_msg w _
  | redisSetex | redisDel =>
    obtain ⟨-, rfl⟩ | ⟨-, -, rfl | rfl⟩ := h
    · exact .of_cache w _
    · exact .refl _ w'
    · exact .of_cache w _
  | insertResource =>
    obtain ⟨-, _, _, _, _, rfl⟩ | ⟨-, -, rfl⟩ := h
    · exact .of_resources w _
    · exact .refl _ w'
  | updateResource | deleteResource =>
    obtain ⟨-, rfl⟩ | ⟨-, -, rfl⟩ := h
    · exact .of_resources w _
    · exact .refl _ w'
  | insertUser =>
    obtain ⟨-, -, _, _, _, _, rfl⟩ | ⟨-, -, rfl⟩ := h
    · exact .of_users w _
    · exact .refl _ w'
  | removeObject =>
    obtain ⟨-, rfl⟩ | ⟨-, -, rfl⟩ := h
    · exact .of_objects w _
    · exact .refl _ w'
  | selectResources | selectResource | selectUser =>
    obtain ⟨-, rfl⟩ | ⟨-, -, rfl⟩ := h
    all_goals exact .refl _ w'

theorem does_resources (h : does faults order a w r w') (ha : a.writesRows = false) :
    w'.resources = w.resources := by
  apply (does_frame h).resources
  intro hwrites
  cases a with
  | insertResource | updateResource | deleteResource => cases ha
  | _ => cases hwrites

/-- An entry behind an action was there before, or has just been stored. -/
theorem does_entry (h : does faults order a w r w') {key text : Bytes}
    (hentry : w'.cache key = some text) :
    w.cache key = some text ∨ ∃ ttl, a = .redisSetex key ttl text := by
  cases a with
  | redisSetex key' ttl value =>
    have hstored (hw : w' = w.store key' value) : w.cache key = some text ∨
        ∃ ttl', Action.redisSetex key' ttl value = .redisSetex key ttl' text := by
      subst hw
      by_cases hkey : key = key'
      · subst hkey
        simp only [store, Function.update_self, Option.some.injEq] at hentry
        exact Or.inr ⟨ttl, by rw [hentry]⟩
      · exact Or.inl (by simpa [store, hkey] using hentry)
    obtain ⟨-, hw⟩ | ⟨-, -, rfl | hw⟩ := h
    · exact hstored hw
    · exact Or.inl hentry
    · exact hstored hw
  | redisDel key' =>
    have hevicted (hw : w' = w.evict key') : w.cache key = some text := by
      subst hw
      by_cases hkey : key = key'
      · simp [evict, hkey] at hentry
      · simpa [evict, hkey] using hentry
    obtain ⟨-, hw⟩ | ⟨-, -, rfl | hw⟩ := h
    · exact Or.inl (hevicted hw)
    · exact Or.inl hentry
    · exact Or.inl (hevicted hw)
  | _ => exact Or.inl ((does_frame h).cache nofun ▸ hentry)

/-- Where Redis does not fail, a `DEL` leaves no entry. -/
theorem does_cache (hredis : ¬ faults.redis) (h : does faults order a w r w') {key text : Bytes}
    (hentry : w'.cache key = some text) :
    w.cache key = some text ∧ a ≠ .redisDel key ∨ ∃ ttl, a = .redisSetex key ttl text := by
  refine (does_entry h hentry).imp_left fun hbefore => ⟨hbefore, ?_⟩
  rintro rfl
  obtain ⟨-, rfl⟩ | ⟨hfault, -⟩ := h
  · simp [evict] at hentry
  · exact hredis hfault

end World

/-- A service call with its actions and answer, or the expiry of a cache entry. -/
inductive Turn where
  | served (query : ServiceQuery) (calls : List (Event actions)) (answer : Json)
  | expired (key : Bytes)

/-- Calls are served one after another. -/
inductive World.Step (P : Platform) (faults : Faults) (order : RowOrder) :
    World → Turn → World → Prop where
  | served {w w' : World} {query : ServiceQuery} {calls : List (Event actions)} {answer : Json}
      (hexec : Prog.Exec (World.does faults order) w (serve P query) calls w' answer) :
      Step P faults order w (.served query calls answer) w'
  | expired (w : World) (key : Bytes) : Step P faults order w (.expired key) (w.evict key)

end Service
end ResourceServer
