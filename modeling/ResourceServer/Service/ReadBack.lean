import ResourceServer.Foundation.Utf8
import ResourceServer.Service.Contents
import ResourceServer.Service.Invalidation
import ResourceServer.Service.JsonText

/-!
# Reading back what was written

A title or content goes from a JSON string through a C string into its row, and from the row
or a cache entry back into JSON. The way there loses what stands behind a NUL; the way back
loses nothing.
-/

namespace ResourceServer
namespace Service

open CString

def Resource.IsText (r : Resource) : Prop := ResourceServer.IsText r.title ∧ ResourceServer.IsText r.content

/-- `dump` throws on no value whose strings are text. -/
structure DumpsText (lib : JsonLib) : Prop where
  resource : ∀ r : Resource, r.IsText → ∃ text, lib.dump r.json = some text
  list : ∀ rs : List Resource, (∀ r ∈ rs, r.IsText) →
    ∃ text, lib.dump (Resource.listJson rs) = some text

def ResourceInfo.IsText (info : ResourceInfo) : Prop :=
  ResourceServer.IsText info.title ∧ ResourceServer.IsText info.content

def Turn.CarriesText : Turn → Prop
  | .served (.createResource info) _ _ => info.IsText
  | .served (.updateResource info) _ _ => info.IsText
  | _ => True

def World.HoldsText (w : World) : Prop := ∀ r ∈ w.resources.rows, r.resource.IsText

/-- The answer under `k` shows the resource `i` of `u` with this title and content. -/
inductive Shown (u i : ℤ) (title content : Bytes) : CacheKey → Json → Prop where
  | resource (isFile : Bool) :
    Shown u i title content (.resource u i) (Resource.json ⟨i, title, content, isFile⟩)
  | list {rs : List Resource} (hmem : ∃ r ∈ rs, r.id = i)
      (hall : ∀ r ∈ rs, r.id = i → r.title = title ∧ r.content = content) :
    Shown u i title content (.list u) (Resource.listJson rs)

/-- A successful update or deletion of the resource `i` of `u`. -/
def Turn.Touches (u i : ℤ) : Turn → Prop
  | .served (.updateResource info) _ answer => answer.error? = none ∧ info.userId = u ∧ info.id = i
  | .served (.deleteResource u' i') _ answer => answer.error? = none ∧ u' = u ∧ i' = i
  | _ => False

/-- A `SELECT` that failed. -/
def selectFailed : Event actions → Bool
  | ⟨.selectResource _ _, .error _⟩ => true
  | ⟨.selectResources _, .error _⟩ => true
  | _ => false

/-- Behind `w`, and until the resource is written again, reads whose `SELECT` does not fail
show the resource so. -/
def ReadsBack (P : Platform) (faults : Faults) (order : RowOrder) (w : World) (u i : ℤ)
    (title content : Bytes) : Prop :=
  ∀ w' w'' k calls answer, Runs (World.Step P faults order)
      (fun _ t => t.CarriesText ∧ ¬ t.Touches u i) w w' → CacheKey.Covers u i k →
    Prog.Exec (World.does faults order) w' (serve P k.query) calls w'' answer →
    (∀ e ∈ calls, selectFailed e = false) → Shown u i title content k answer

/-- What makes reads answer so. -/
structure World.Keeps (P : Platform) (w : World) (u i : ℤ) (title content : Bytes) : Prop where
  row : ∃ r, w.found u i = [r] ∧ r.title = title ∧ r.content = content
  text : w.HoldsText
  entries : ∀ k, CacheKey.Covers u i k → ∀ text j, w.cache k.text = some text →
    P.json.parse text = .ok j → Shown u i title content k j

section Steps

variable {P : Platform} {faults : Faults} {order : RowOrder} {u i : ℤ} {title content : Bytes}
  {w w' : World} {calls : History} {answer : Json}

theorem shown_of_direct {r : Row} (hfound : w.found u i = [r]) {k : CacheKey}
    (hk : k.Covers u i) {j : Json} (hj : w.direct order k = some j) :
    Shown u i r.title r.content k j := by
  obtain ⟨hmem, rfl, rfl⟩ := World.mem_of_found hfound
  rcases hk with rfl | rfl
  · rw [World.direct, hfound] at hj
    obtain rfl := Option.some.inj hj
    exact .resource r.isFile
  · obtain rfl := Option.some.inj hj
    have howned {r' : Row} : r' ∈ order.sort (w.owned r.userId) ↔
        r' ∈ w.resources.rows ∧ r'.userId = r.userId := by
      rw [(order.perm _).mem_iff, World.owned, Table.mem_select, Row.ownedBy, decide_eq_true_eq]
    refine .list ⟨r.resource, List.mem_map.mpr ⟨r, howned.mpr ⟨hmem, rfl⟩, rfl⟩, rfl⟩ ?_
    intro res hres hid
    obtain ⟨r', hr', rfl⟩ := List.mem_map.mp hres
    obtain rfl : r' = r := Table.eq_of_id_eq (howned.mp hr').1 hmem hid
    exact ⟨rfl, rfl⟩

theorem holdsText_step {t : Turn} (hw : w.HoldsText) (ht : t.CarriesText)
    (hstep : World.Step P faults order w t w') : w'.HoldsText := by
  cases hstep with
  | expired => exact hw
  | served hexec =>
    intro r hr
    cases (rewrites_of_exec hexec).origin hr with
    | kept hr => exact hw r hr
    | created info hq id hrow | updated info hq r₀ hr₀ hrow =>
      subst hq hrow
      exact ⟨ht.1.cstr, ht.2.cstr⟩

/-- A row stays as it is until it is written. -/
theorem found_step {r : Row} {t : Turn} (hfound : w.found u i = [r]) (ht : ¬ t.Touches u i)
    (hstep : World.Step P faults order w t w') : w'.found u i = [r] := by
  cases hstep with
  | expired => exact hfound
  | served hexec =>
    rw [← hfound]
    cases rewrites_of_exec hexec with
    | same hrows => rw [World.found, World.found, hrows]
    | created info id hnext hpos hmax hq hok hrows =>
      have hne : (info.row id).isAt u i = false := by
        rw [Bool.eq_false_iff]
        intro hat
        obtain ⟨hmem, -, hid⟩ := World.mem_of_found hfound
        have hold := (w.resources.ids r hmem).2
        have hnew : id = i := (Row.isAt_iff.mp hat).2
        omega
      rw [World.found, hrows]
      exact Table.select_insert hnext hpos hmax hne
    | updated info hq hok hrows =>
      subst hq
      have hne : CacheKey.resource u i ≠ .resource info.userId info.id := by
        rintro ⟨⟩
        exact ht ⟨hok, rfl, rfl⟩
      rw [World.found, hrows]
      exact Table.select_modify (by intro; rfl) fun r _ hr =>
        ⟨isAt_eq_false_of_key hne hr, isAt_eq_false_of_key hne hr⟩
    | deleted u' i' hq hok hrows =>
      subst hq
      have hne : CacheKey.resource u i ≠ .resource u' i' := by
        rintro ⟨⟩
        exact ht ⟨hok, rfl, rfl⟩
      rw [World.found, hrows]
      exact Table.select_remove fun r _ hr => isAt_eq_false_of_key hne hr

theorem World.Keeps.step (hlib : RoundTrips P.json) {t : Turn} (h : w.Keeps P u i title content)
    (ht : t.CarriesText) (hother : ¬ t.Touches u i) (hstep : World.Step P faults order w t w') :
    w'.Keeps P u i title content := by
  obtain ⟨r, hfound, rfl, rfl⟩ := h.row
  refine ⟨⟨r, found_step hfound hother hstep, rfl, rfl⟩, holdsText_step h.text ht hstep, ?_⟩
  intro k hk text j hentry hparse
  cases hstep with
  | expired key =>
    refine h.entries k hk text j ?_ hparse
    by_cases hkey : k.text = key
    · simp [World.evict, hkey] at hentry
    · simpa [World.evict, hkey] using hentry
  | served hexec =>
    rcases exec_entries hexec hentry with hold | ⟨k', hkey, hshows, -⟩
    · exact h.entries k hk text j hold hparse
    · obtain rfl := CacheKey.text_injective hkey
      exact shown_of_direct hfound hk (hshows.parse hlib hparse)

/-- A list is loaded, and the message left empty, unless the `SELECT` fails. -/
theorem getResources_exec {rs : List Resource}
    (hexec : Prog.Exec (World.does faults order) w (ResourceDAO.getResources u) calls w' rs) :
    (rs = (order.sort (w.owned u)).map Row.resource ∧ w'.msg .resource = []) ∨
      ∃ f, ⟨.selectResources u, Except.error f⟩ ∈ calls := by
  obtain ⟨-, w₁, rest, rfl, rfl, hrest⟩ := exec_act_iff.mp hexec
  obtain ⟨result, w₂, last, hdoes, rfl, hlast⟩ := exec_act_iff.mp hrest
  obtain ⟨rfl, rfl⟩ | ⟨-, ⟨f, rfl⟩, rfl⟩ := hdoes
  · obtain ⟨rfl, rfl, rfl⟩ := Prog.exec_ret_iff.mp hlast
    have hcleared : Function.update w.msg .resource [] .resource = [] := Function.update_self ..
    exact Or.inl ⟨rfl, hcleared⟩
  · exact Or.inr ⟨f, by simp⟩

theorem exec_cached {k : CacheKey} {rest : ServiceProg Json}
    (hexec : Prog.Exec (World.does faults order) w (ResourceCache.get k >>= fun cached =>
      match parseCachedJson P.json cached with
      | some cached => return cached
      | none => rest) calls w' answer) :
    (∃ text, w.cache k.text = some text ∧ P.json.parse text = .ok answer) ∨
      ∃ value tail, calls = ⟨.redisGet k.text, value⟩ :: tail ∧
        Prog.Exec (World.does faults order) w rest tail w' answer := by
  obtain ⟨value, w₁, tail, ⟨rfl, hvalue⟩, rfl, htail⟩ := exec_act_iff.mp hexec
  cases hparsed : parseCachedJson P.json value with
  | none =>
    rw [hparsed] at htail
    exact Or.inr ⟨value, tail, rfl, htail⟩
  | some j =>
    rw [hparsed] at htail
    obtain ⟨-, -, rfl⟩ := Prog.exec_ret_iff.mp htail
    obtain ⟨text, rfl, hj⟩ := Option.bind_eq_some_iff.mp hparsed
    refine Or.inl ⟨text, ?_, ?_⟩
    · rcases hvalue with hvalue | ⟨-, hnone⟩
      · exact hvalue.symm
      · cases hnone
    · cases hparse : P.json.parse text with
      | error e =>
        rw [hparse] at hj
        cases hj
      | ok j' =>
        rw [hparse] at hj
        rw [Option.some.inj hj]

theorem getResource_shows (hdumps : DumpsText P.json) (h : w.Keeps P u i title content)
    (hexec : Prog.Exec (World.does faults order) w (ResourceService.getResource P u i) calls w' answer)
    (hselect : ∀ e ∈ calls, selectFailed e = false) :
    Shown u i title content (.resource u i) answer := by
  rcases exec_cached hexec with ⟨text, hentry, hparse⟩ | ⟨value, tail, rfl, htail⟩
  · exact h.entries _ (Or.inl rfl) text answer hentry hparse
  · obtain ⟨r, hfound, rfl, rfl⟩ := h.row
    obtain ⟨hr, -⟩ := World.mem_of_found hfound
    obtain ⟨loading, w₁, found, rest, hload, hrest, rfl⟩ := Prog.exec_bind_iff.mp htail
    obtain ⟨-, -, -, hloaded | ⟨-, f, hf⟩⟩ := getResource_exec hload
    · rw [hfound, List.head?_cons, Option.map_some] at hloaded
      subst hloaded
      obtain ⟨text, hdump⟩ := hdumps.resource r.resource (h.text r hr)
      dsimp only at hrest
      rw [hdump] at hrest
      obtain ⟨ok, w₂, last, -, rfl, hlast⟩ := exec_act_iff.mp hrest
      obtain ⟨-, -, rfl⟩ := Prog.exec_ret_iff.mp hlast
      have hdirect : w.direct order (.resource u i) = some r.resource.json := by
        rw [World.direct, hfound]
        rfl
      exact shown_of_direct hfound (Or.inl rfl) hdirect
    · have hmem : ⟨.selectResource u i, Except.error f⟩ ∈
          (⟨.redisGet (CacheKey.resource u i).text, value⟩ :: (loading ++ rest) : History) :=
        List.mem_cons_of_mem _ (List.mem_append_left _ hf)
      exact absurd (hselect _ hmem) (by simp [selectFailed])

theorem getResources_shows (hdumps : DumpsText P.json) (h : w.Keeps P u i title content)
    (hexec : Prog.Exec (World.does faults order) w (ResourceService.getResources P u) calls w' answer)
    (hselect : ∀ e ∈ calls, selectFailed e = false) :
    Shown u i title content (.list u) answer := by
  rcases exec_cached hexec with ⟨text, hentry, hparse⟩ | ⟨value, tail, rfl, htail⟩
  · exact h.entries _ (Or.inr rfl) text answer hentry hparse
  · obtain ⟨r, hfound, rfl, rfl⟩ := h.row
    obtain ⟨loading, w₁, rs, rest, hload, hrest, rfl⟩ := Prog.exec_bind_iff.mp htail
    rcases getResources_exec hload with ⟨rfl, hmsg⟩ | ⟨f, hf⟩
    · have htexts : ∀ res ∈ (order.sort (w.owned u)).map Row.resource, res.IsText := by
        intro res hres
        obtain ⟨r', hr', rfl⟩ := List.mem_map.mp hres
        exact h.text r' (Table.mem_select.mp ((order.perm _).mem_iff.mp hr')).1
      obtain ⟨text, hdump⟩ := hdumps.list _ htexts
      obtain ⟨m, w₂, last, ⟨rfl, rfl⟩, rfl, hlast⟩ := exec_act_iff.mp hrest
      rw [if_neg (by simp [hmsg]), hdump] at hlast
      obtain ⟨ok, w₃, last', -, rfl, hlast'⟩ := exec_act_iff.mp hlast
      obtain ⟨-, -, rfl⟩ := Prog.exec_ret_iff.mp hlast'
      exact shown_of_direct hfound (Or.inr rfl) rfl
    · have hmem : ⟨.selectResources u, Except.error f⟩ ∈
          (⟨.redisGet (CacheKey.list u).text, value⟩ :: (loading ++ rest) : History) :=
        List.mem_cons_of_mem _ (List.mem_append_left _ hf)
      exact absurd (hselect _ hmem) (by simp [selectFailed])

theorem World.Keeps.readsBack (hlib : RoundTrips P.json) (hdumps : DumpsText P.json)
    (h : w.Keeps P u i title content) : ReadsBack P faults order w u i title content := by
  intro v v' k calls answer hrun hk hexec hselect
  have hv : v.Keeps P u i title content :=
    Runs.invariant (I := fun w => w.Keeps P u i title content) hrun
      (fun _ _ _ hw ht hstep => hw.step hlib ht.1 ht.2 hstep) h
  rcases hk with rfl | rfl
  · exact getResource_shows hdumps hv hexec hselect
  · exact getResources_shows hdumps hv hexec hselect

theorem read_runs (faults : Faults) (order : RowOrder) (hdumps : DumpsText P.json) {r : Row}
    (hfound : w.found u i = [r]) (htext : w.HoldsText)
    (hmiss : w.cache (CacheKey.resource u i).text = none) :
    ∃ calls w', Prog.Exec (World.does faults order) w
        (serve P (CacheKey.resource u i).query) calls w' r.resource.json ∧
      ∀ e ∈ calls, selectFailed e = false := by
  obtain ⟨hmem, rfl, rfl⟩ := World.mem_of_found hfound
  obtain ⟨text, hdump⟩ := hdumps.resource r.resource (htext r hmem)
  refine ⟨[⟨.redisGet (CacheKey.resource r.userId r.id).text, none⟩] ++
    ([cleared .resource, ⟨.selectResource r.userId r.id, Except.ok (some r.resource)⟩] ++
      [⟨.redisSetex (CacheKey.resource r.userId r.id).text (CacheKey.resource r.userId r.id).ttl text,
        true⟩]), (w.setMsg .resource []).store (CacheKey.resource r.userId r.id).text text,
    .call ⟨rfl, Or.inl hmiss.symm⟩
    (Prog.exec_bind_iff.mpr ⟨_, _, _, _, exec_getResource_dao hfound, ?_, rfl⟩), ?_⟩
  · dsimp only
    rw [hdump]
    exact .call (Or.inl ⟨rfl, rfl⟩) (.ret _ _)
  · simp [selectFailed, cleared]

end Steps

/-- A `POST` or `PUT` that was answered "created" or "updated", with the number of its row. -/
inductive Written (P : Platform) (faults : Faults) (order : RowOrder) (info : ResourceInfo)
    (w w' : World) (calls : History) : ℤ → Prop where
  | created {i : ℤ}
      (hexec : Prog.Exec (World.does faults order) w (serve P (.createResource info)) calls w'
        (.status (ascii "created")))
      (hnew : ∃ r ∈ w'.resources.rows, r ∉ w.resources.rows ∧ r.id = i) :
      Written P faults order info w w' calls i
  | updated
      (hexec : Prog.Exec (World.does faults order) w (serve P (.updateResource info)) calls w'
        (.status (ascii "updated"))) :
      Written P faults order info w w' calls info.id

/-- A `DEL` of the write failed and left an entry that shows the resource otherwise. -/
def LeavesOther (P : Platform) (calls : History) (w : World) (u i : ℤ) (title content : Bytes) :
    Prop :=
  ∃ k, CacheKey.Covers u i k ∧ ⟨.redisDel k.text, false⟩ ∈ calls ∧ ∃ text j,
    w.cache k.text = some text ∧ P.json.parse text = .ok j ∧ ¬ Shown u i title content k j

/-- Entries are about numbers that have been handed out. -/
def World.NumbersKnown (w : World) : Prop :=
  ∀ u i text, w.cache (CacheKey.resource u i).text = some text → i < w.resources.nextId

section Writes

variable {P : Platform} {faults : Faults} {order : RowOrder} {info : ResourceInfo} {u i : ℤ}
  {w w' : World} {calls : History} {answer : Json}

theorem nextId_le {q : ServiceQuery} (h : Rewrites q answer w w') :
    w.resources.nextId ≤ w'.resources.nextId := by
  cases h with
  | same hrows => rw [hrows]
  | created info id hnext hpos hmax hq hok hrows =>
    rw [hrows]
    exact hnext.trans (Int.le_add_one le_rfl)
  | updated info hq hok hrows =>
    rw [hrows]
    exact le_rfl
  | deleted u i hq hok hrows =>
    rw [hrows]
    exact le_rfl

/-- Rows that are shown have been numbered. -/
theorem lt_nextId_of_direct {j : Json} (hj : w.direct order (.resource u i) = some j) :
    i < w.resources.nextId := by
  obtain ⟨r, hhead, -⟩ := Option.map_eq_some_iff.mp hj
  obtain ⟨hr, -, rfl⟩ := World.head?_found hhead
  exact (w.resources.ids r hr).2

theorem numbersKnown_step {t : Turn} (hw : w.NumbersKnown)
    (hstep : World.Step P faults order w t w') : w'.NumbersKnown := by
  intro u i text hentry
  cases hstep with
  | expired key =>
    by_cases hkey : (CacheKey.resource u i).text = key
    · simp [World.evict, hkey] at hentry
    · exact hw u i text (by simpa [World.evict, hkey] using hentry)
  | served hexec =>
    refine lt_of_lt_of_le ?_ (nextId_le (rewrites_of_exec hexec))
    rcases exec_entries hexec hentry with hold | ⟨k, hkey, ⟨j, hj, -⟩, -⟩
    · exact hw u i text hold
    · obtain rfl := CacheKey.text_injective hkey
      exact lt_nextId_of_direct hj

theorem Written.step (h : Written P faults order info w w' calls i) (hinfo : info.IsText) :
    ∃ t, Turn.CarriesText t ∧ World.Step P faults order w t w' := by
  cases h with
  | created hexec hnew => exact ⟨.served (.createResource info) calls _, hinfo, .served hexec⟩
  | updated hexec => exact ⟨.served (.updateResource info) calls _, hinfo, .served hexec⟩

theorem created_rows {w w' : World}
    (hexec : Prog.Exec (World.does faults order) w (serve P (.createResource info)) calls w'
      (.status (ascii "created")))
    (hnew : ∃ r ∈ w'.resources.rows, r ∉ w.resources.rows ∧ r.id = i) :
    w.resources.nextId ≤ i ∧ info.row i ∈ w'.resources.rows := by
  obtain ⟨-, id, hnext, hpos, hmax, hrows⟩ | ⟨⟨text, htext⟩, -⟩ := createResource_exec hexec
  · obtain ⟨r, hr, hold, rfl⟩ := hnew
    rw [hrows] at hr ⊢
    rcases (Table.mem_insert hnext hpos hmax).mp hr with hr | rfl
    · exact absurd hr hold
    · exact ⟨hnext, hr⟩
  · exact absurd htext (Json.ne_error rfl text)

theorem updated_rows
    (hexec : Prog.Exec (World.does faults order) w (serve P (.updateResource info)) calls w'
      (.status (ascii "updated"))) :
    ∃ r ∈ w'.resources.rows, r.isAt info.userId info.id = true ∧
      r.title = cstr info.title ∧ r.content = cstr info.content := by
  obtain ⟨-, hfound, hrows⟩ | ⟨⟨text, htext⟩, -⟩ := updateResource_exec hexec
  · obtain ⟨r, hr⟩ := List.exists_mem_of_ne_nil _ hfound
    obtain ⟨hmem, hat⟩ := Table.mem_select.mp hr
    refine ⟨{ r with title := cstr info.title, content := cstr info.content }, ?_, hat, rfl, rfl⟩
    rw [hrows]
    exact World.mem_updateRows.mpr ⟨r, hmem, by rw [if_pos hat]⟩
  · exact absurd htext (Json.ne_error rfl text)

theorem Written.row (h : Written P faults order info w w' calls i) :
    ∃ r, w'.found info.userId i = [r] ∧ r.title = cstr info.title ∧ r.content = cstr info.content := by
  cases h with
  | created hexec hnew =>
    exact ⟨info.row i, World.found_self (created_rows hexec hnew).2, rfl, rfl⟩
  | updated hexec =>
    obtain ⟨r, hr, hat, htitle, hcontent⟩ := updated_rows hexec
    obtain ⟨huser, hid⟩ := Row.isAt_iff.mp hat
    refine ⟨r, ?_, htitle, hcontent⟩
    rw [← huser, ← hid]
    exact World.found_self hr

theorem created_list
    (hexec : Prog.Exec (World.does faults order) w (serve P (.createResource info)) calls w' answer)
    (hok : answer.error? = none) :
    w'.cache (CacheKey.list info.userId).text = none ∨
      ⟨.redisDel (CacheKey.list info.userId).text, false⟩ ∈ calls := by
  obtain ⟨first, w₁, last, hlast, rfl⟩ := succeeded_exec hexec hok
  obtain ⟨ok, w₂, rest, hdel, rfl, hrest⟩ := exec_act_iff.mp hlast
  obtain ⟨rfl, rfl, -⟩ := Prog.exec_ret_iff.mp hrest
  rcases hdel with ⟨-, rfl⟩ | ⟨-, rfl, -⟩
  · exact Or.inl (Function.update_self ..)
  · exact Or.inr (by simp)

/-- A write leaves no entry for its resource, unless a `DEL` fails. -/
theorem Written.entries {k : CacheKey} (hw : w.NumbersKnown)
    (h : Written P faults order info w w' calls i) (hk : k.Covers info.userId i) :
    w'.cache k.text = none ∨ ⟨.redisDel k.text, false⟩ ∈ calls := by
  cases h with
  | updated hexec => exact written_exec rfl hexec rfl hk
  | created hexec hnew =>
    rcases hk with rfl | rfl
    · left
      obtain ⟨hnext, -⟩ := created_rows hexec hnew
      cases hentry : w'.cache (CacheKey.resource info.userId i).text with
      | none => rfl
      | some text =>
        have hlt : i < w.resources.nextId := by
          rcases exec_entries hexec hentry with hold | ⟨k, hkey, ⟨j, hj, -⟩, -⟩
          · exact hw _ _ _ hold
          · obtain rfl := CacheKey.text_injective hkey
            exact lt_nextId_of_direct hj
        exact absurd hnext (not_le.mpr hlt)
    · exact created_list hexec rfl

theorem shown_resource {title content : Bytes} {r : Resource}
    (h : Shown u i title content (.resource u i) r.json) : r.title = title ∧ r.content = content := by
  generalize hjson : r.json = j at h
  cases h with
  | resource isFile =>
    simp only [Resource.json, Json.obj.injEq, List.cons.injEq, Prod.mk.injEq, Json.str.injEq,
      true_and] at hjson
    exact ⟨hjson.2.1, hjson.2.2.1⟩

theorem row_of_readsBack {title content : Bytes} {r : Row} (hdumps : DumpsText P.json)
    (hfound : w.found u i = [r]) (htext : w.HoldsText)
    (h : ReadsBack P faults order w u i title content) : r.title = title ∧ r.content = content := by
  -- the entry expires, and the row is read from the table
  have hexpired : Runs (World.Step P faults order) (fun _ t => t.CarriesText ∧ ¬ t.Touches u i) w
      (w.evict (CacheKey.resource u i).text) :=
    Runs.refl.snoc (.expired w (CacheKey.resource u i).text) ⟨trivial, id⟩
  have hmiss : (w.evict (CacheKey.resource u i).text).cache (CacheKey.resource u i).text = none :=
    Function.update_self ..
  obtain ⟨calls, w', hexec, hselect⟩ :=
    read_runs (w := w.evict (CacheKey.resource u i).text) faults order hdumps hfound htext hmiss
  exact shown_resource (h _ w' _ calls _ hexpired (Or.inl rfl) hexec hselect)

end Writes

/-- In every run on text, what a `POST` or `PUT` has stored is read back from table and cache
exactly if it holds no NUL and no failed `DEL` leaves an entry that shows something else. -/
theorem reads_back_iff {P : Platform} {faults : Faults} {order : RowOrder}
    {users : Table User User.id} {objects : Set (Bytes × Bytes)} {info : ResourceInfo} {i : ℤ}
    {w w' : World} {calls : History} (hlib : RoundTrips P.json) (hdumps : DumpsText P.json)
    (hrun : Runs (World.Step P faults order) (fun _ t => t.CarriesText) (.initial users objects) w)
    (hinfo : info.IsText) (hwrite : Written P faults order info w w' calls i) :
    ReadsBack P faults order w' info.userId i info.title info.content ↔
      nul ∉ info.title ∧ nul ∉ info.content ∧
        ¬ LeavesOther P calls w' info.userId i info.title info.content := by
  have htext : w.HoldsText := Runs.invariant (I := World.HoldsText) hrun
    (fun _ _ _ hw ht hstep => holdsText_step hw ht hstep) fun _ hr => (nomatch hr)
  have hknown : w.NumbersKnown := Runs.invariant (I := World.NumbersKnown) hrun
    (fun _ _ _ hw _ hstep => numbersKnown_step hw hstep) fun _ _ _ hentry => (nomatch hentry)
  obtain ⟨t, ht, hstep⟩ := hwrite.step hinfo
  have htext' : w'.HoldsText := holdsText_step htext ht hstep
  obtain ⟨r, hfound, htitle, hcontent⟩ := hwrite.row
  constructor
  · intro h
    obtain ⟨htitle', hcontent'⟩ := row_of_readsBack hdumps hfound htext' h
    refine ⟨?_, ?_, ?_⟩
    · rw [← htitle', htitle]
      exact nul_notMem_cstr info.title
    · rw [← hcontent', hcontent]
      exact nul_notMem_cstr info.content
    · rintro ⟨k, hk, -, text, j, hentry, hparse, hother⟩
      refine hother (h w' w' k _ j .refl hk (exec_entry ⟨rfl, Or.inl hentry.symm⟩ hparse) ?_)
      simp [selectFailed]
  · rintro ⟨hnulTitle, hnulContent, hentries⟩
    rw [cstr_eq_self hnulTitle] at htitle
    rw [cstr_eq_self hnulContent] at hcontent
    refine World.Keeps.readsBack hlib hdumps ⟨⟨r, hfound, htitle, hcontent⟩, htext', ?_⟩
    intro k hk text j hentry hparse
    by_contra hother
    rcases hwrite.entries hknown hk with hgone | hfailed
    · rw [hgone] at hentry
      cases hentry
    · exact hentries ⟨k, hk, hfailed, text, j, hentry, hparse, hother⟩

theorem compact_dumpsText : DumpsText compact where
  resource r _ := ⟨r.text, compactText_json r⟩
  list rs _ := ⟨Resource.listText rs, compactText_listJson rs⟩

/-- Nothing configured, and compact JSON text. -/
noncomputable def compacting : Platform := { bare with json := compact }

/-- A note of user 2. -/
def titled (title : Bytes) : ResourceInfo := ⟨0, 2, title, ascii "c", false⟩

theorem titled_written (title : Bytes) : ∃ calls w',
    Written compacting .never ⟨id, fun _ => .refl _⟩ (titled title)
      (.initial (.empty User User.id) ∅) w' calls 1 ∧
    ∀ key, ⟨.redisDel key, false⟩ ∉ calls := by
  obtain ⟨calls, w', hexec, hrows, -⟩ := exec_createResource .never ⟨id, fun _ => .refl _⟩
    (.initial (.empty User User.id) ∅) (titled title) 1 (by decide) (by decide) (by decide) compacting
  refine ⟨calls, w', .created hexec ⟨(titled title).row 1, ?_, List.not_mem_nil, rfl⟩, ?_⟩
  · rw [hrows]
    exact (Table.mem_insert _ _ _).mpr (Or.inr rfl)
  · intro key hmem
    obtain ⟨w₁, w₂, ⟨hok, -⟩ | ⟨hfault, -⟩⟩ := hexec.does hmem
    · cases hok
    · exact hfault

theorem plain_title_reads_back : ∃ calls w',
    Written compacting .never ⟨id, fun _ => .refl _⟩ (titled (ascii "a"))
      (.initial (.empty User User.id) ∅) w' calls 1 ∧
    ReadsBack compacting .never ⟨id, fun _ => .refl _⟩ w' 2 1 (ascii "a") (ascii "c") := by
  obtain ⟨calls, w', hwritten, hdels⟩ := titled_written (ascii "a")
  have hinfo : (titled (ascii "a")).IsText := ⟨⟨['a'], by decide⟩, ['c'], by decide⟩
  refine ⟨calls, w', hwritten, ?_⟩
  apply (reads_back_iff compact_roundTrips compact_dumpsText .refl hinfo hwritten).mpr
  refine ⟨by decide, by decide, ?_⟩
  rintro ⟨k, -, hfailed, -⟩
  exact hdels k.text hfailed

/-- The title `a` NUL `b` is cut to `a`. -/
theorem nul_title_cut :
    ¬ ∀ (info : ResourceInfo) (i : ℤ) (w w' : World) (calls : History),
      Runs (World.Step compacting .never ⟨id, fun _ => .refl _⟩) (fun _ t => t.CarriesText)
        (.initial (.empty User User.id) ∅) w →
      info.IsText → Written compacting .never ⟨id, fun _ => .refl _⟩ info w w' calls i →
      ReadsBack compacting .never ⟨id, fun _ => .refl _⟩ w' info.userId i info.title info.content := by
  intro h
  obtain ⟨calls, w', hwritten, -⟩ := titled_written [97, 0, 98]
  have hinfo : (titled [97, 0, 98]).IsText :=
    ⟨⟨['a', Char.ofNat 0, 'b'], by decide⟩, ['c'], by decide⟩
  have hreads := h (titled [97, 0, 98]) 1 _ w' calls .refl hinfo hwritten
  obtain ⟨t, ht, hstep⟩ := hwritten.step hinfo
  have hempty : (World.initial (.empty User User.id) ∅).HoldsText := by
    intro r hr
    cases hr
  have htext : w'.HoldsText := holdsText_step hempty ht hstep
  obtain ⟨r, hfound, htitle, -⟩ := hwritten.row
  obtain ⟨hsame, -⟩ := row_of_readsBack compact_dumpsText hfound htext hreads
  exact absurd (htitle.symm.trans hsame) (by decide)

end Service
end ResourceServer
