import ResourceServer.Service.Contents

/-!
# Rows that share an object

Uploads put objects where their signed URLs point; rows name objects by free text, so any
number of them may name one. A deletion takes the object of its row from all of them.
-/

namespace ResourceServer
namespace Service

open CString

/-- The stores, and the objects for which upload URLs were handed out. -/
structure Site where
  world : World
  granted : Set (Bytes × Bytes)

/-- A turn of the server, or the upload of an object by a client. -/
inductive Move where
  | turn (t : Turn)
  | put (x : Bytes × Bytes)

/-- The objects whose upload URLs a turn hands out. -/
def Turn.granted : Turn → Set (Bytes × Bytes)
  | .served _ calls answer => {x | answer.error? = none ∧ .sign .put x.1 x.2 ∈ objectUses calls}
  | .expired _ => ∅

namespace Site

def start (users : Table User User.id) (objects : Set (Bytes × Bytes)) : Site where
  world := .initial users objects
  granted := ∅

/-- An object is uploaded through a URL that was handed out before. -/
def upload (s : Site) (x : Bytes × Bytes) : Site :=
  { s with world := { s.world with objects := s.world.objects ∪ {x} } }

inductive Step (P : Platform) (faults : Faults) (order : RowOrder) : Site → Move → Site → Prop where
  | turn {s : Site} {t : Turn} {w' : World} (hstep : World.Step P faults order s.world t w') :
      Step P faults order s (.turn t) ⟨w', s.granted ∪ t.granted⟩
  | put {s : Site} {x : Bytes × Bytes} (hgranted : x ∈ s.granted) :
      Step P faults order s (.put x) (s.upload x)

end Site

/-- A deletion takes its row only, and leaves every other file row an object that it named. -/
structure KeepsOthers (P : Platform) (u i : ℤ) (w w' : World) : Prop where
  rows : w'.resources = (w.deleteRows u i).resources
  objects : ∀ r ∈ w.resources.rows, r.isAt u i = false →
    ∀ x, r.Names P x → x ∈ w.objects → x ∈ w'.objects

/-- An existing object that `r` names is named by another row too. -/
def World.Shares (P : Platform) (w : World) (r : Row) : Prop :=
  ∃ r' ∈ w.resources.rows, r' ≠ r ∧ ∃ x ∈ w.objects, r.Names P x ∧ r'.Names P x

section Deletion

variable {P : Platform} {faults : Faults} {order : RowOrder} {u i : ℤ} {w w' : World}
  {calls : History} {r : Row}

theorem isAt_eq_false_iff (hfound : w.found u i = [r]) {r' : Row} (hr' : r' ∈ w.resources.rows) :
    r'.isAt u i = false ↔ r' ≠ r := by
  have hmem : r' ∈ w.found u i ↔ r' = r := by rw [hfound, List.mem_singleton]
  rw [← Bool.not_eq_true, ne_eq, ← hmem, World.found, Table.mem_select]
  exact ⟨fun hat h => hat h.2, fun h hat => h ⟨hr', hat⟩⟩

theorem deleted_exec
    (hexec : Prog.Exec (World.does faults order) w (serve P (.deleteResource u i)) calls w'
      (.status (ascii "deleted"))) :
    ∃ r, w.found u i = [r] ∧ w'.resources = (w.deleteRows u i).resources ∧
      w'.objects = w.objects \ {x | r.Names P x} := by
  have hends := deleteResource_exec hexec
  generalize hanswer : Json.status (ascii "deleted") = answer at hends
  cases hends with
  | unread | unremoved | undeleted => exact absurd hanswer (Json.ne_error rfl _)
  | deleted hr hkey hrows hobjects => exact ⟨_, World.found_of_mem hr, hrows, hobjects⟩

theorem keepsOthers_iff (hfound : w.found u i = [r])
    (hrows : w'.resources = (w.deleteRows u i).resources)
    (hobjects : w'.objects = w.objects \ {x | r.Names P x}) :
    KeepsOthers P u i w w' ↔ ¬ w.Shares P r := by
  constructor
  · rintro hkeeps ⟨r', hr', hne, x, hx, hnames, hnames'⟩
    have hkept := hkeeps.objects r' hr' ((isAt_eq_false_iff hfound hr').mpr hne) x hnames' hx
    rw [hobjects] at hkept
    exact hkept.2 hnames
  · intro hshares
    refine ⟨hrows, fun r' hr' hat x hnames' hx => ?_⟩
    have hne := (isAt_eq_false_iff hfound hr').mp hat
    rw [hobjects]
    exact ⟨hx, fun hnames => hshares ⟨r', hr', hne, x, hx, hnames, hnames'⟩⟩

end Deletion

theorem ResourceInfo.row_names {P : Platform} (hgetenv : P.CStrings) {info : ResourceInfo} {u millis : ℤ}
    {filename : Bytes} (hfile : info.isFile = true)
    (hcontent : info.content = P.publicUrl (uploadKey u millis filename)) (id : ℤ) :
    (info.row id).Names P (P.bucket, uploadKey u millis filename) := by
  have hstored : (info.row id).content = P.publicUrl (uploadKey u millis filename) := by
    change cstr info.content = _
    rw [hcontent]
    exact cstr_eq_self (Platform.publicUrl_cstring hgetenv (uploadKey_cstring u millis filename))
  refine ⟨hfile, ?_, ?_⟩
  · rw [hstored, Platform.objectKey_publicUrl]
    exact uploadKey_ne_nil u millis filename
  · rw [hstored, Platform.objectKey_publicUrl]

theorem granted_of_upload {P : Platform} {faults : Faults} {order : RowOrder} {w w' : World} {u : ℤ}
    {filename contentType key : Bytes} {calls : History} {answer : Json}
    (hexec : Prog.Exec (World.does faults order) w
      (StorageService.createUploadUrl P u filename contentType) calls w' answer)
    (hok : answer.error? = none) (hkey : answer.get? (ascii "object_key") = some (.str key)) :
    (P.bucket, key) ∈ Turn.granted (.served (.createUploadUrl u filename contentType) calls answer) := by
  obtain ⟨millis, -, huses, -, hkey', -⟩ := createUploadUrl_exec hexec hok
  rw [hkey'] at hkey
  obtain rfl := Json.str.inj (Option.some.inj hkey)
  refine ⟨hok, ?_⟩
  rw [huses]
  exact List.mem_singleton.mpr rfl

/-- No two rows name one object. -/
def World.Unshared (P : Platform) (w : World) : Prop :=
  ∀ r ∈ w.resources.rows, ∀ r' ∈ w.resources.rows, ∀ x, r.Names P x → r'.Names P x → r = r'

def StoresUnshared (P : Platform) (s : Site) : Move → Prop
  | .turn (.served (.createResource info) _ _) =>
    ∀ r ∈ s.world.resources.rows, ∀ x, (info.row info.id).Names P x → ¬ r.Names P x
  | .turn (.served (.updateResource info) _ _) =>
    ∀ r ∈ s.world.found info.userId info.id, ∀ r' ∈ s.world.resources.rows, r' ≠ r →
      ∀ x, { r with content := cstr info.content }.Names P x → ¬ r'.Names P x
  | _ => True

section Runs

variable {P : Platform} {faults : Faults} {order : RowOrder} {w w' : World}

theorem World.Unshared.insert {info : ResourceInfo} {id : ℤ} (h : w.Unshared P)
    (hstores : ∀ r ∈ w.resources.rows, ∀ x, (info.row info.id).Names P x → ¬ r.Names P x)
    {hnext : w.resources.nextId ≤ id} {hpos : 0 < id} {hmax : id ≤ intMax}
    (hrows : w'.resources = w.resources.insert (info.row id) hnext hpos hmax) : w'.Unshared P := by
  intro r hr r' hr' x hx hx'
  rw [hrows] at hr hr'
  rcases (Table.mem_insert hnext hpos hmax).mp hr with hr | rfl
  · rcases (Table.mem_insert hnext hpos hmax).mp hr' with hr' | rfl
    · exact h r hr r' hr' x hx hx'
    · exact absurd hx (hstores r hr x hx')
  · rcases (Table.mem_insert hnext hpos hmax).mp hr' with hr' | rfl
    · exact absurd hx' (hstores r' hr' x hx)
    · rfl

theorem World.Unshared.update {info : ResourceInfo} (h : w.Unshared P)
    (hstores : ∀ r ∈ w.found info.userId info.id, ∀ r' ∈ w.resources.rows, r' ≠ r →
      ∀ x, { r with content := cstr info.content }.Names P x → ¬ r'.Names P x)
    (hrows : w'.resources =
      (w.updateRows (cstr info.title) (cstr info.content) info.userId info.id).resources) :
    w'.Unshared P := by
  have hother {r r' : Row} {x : Bytes × Bytes} (hr : r ∈ w.resources.rows)
      (hr' : r' ∈ w.resources.rows) (hat : r.isAt info.userId info.id = true)
      (hat' : r'.isAt info.userId info.id ≠ true)
      (hx : { r with title := cstr info.title, content := cstr info.content }.Names P x) :
      ¬ r'.Names P x := by
    refine hstores r (Table.mem_select.mpr ⟨hr, hat⟩) r' hr' ?_ x hx
    rintro rfl
    exact hat' hat
  intro r hr r' hr' x hx hx'
  rw [hrows] at hr hr'
  obtain ⟨r₀, hr₀, rfl⟩ := World.mem_updateRows.mp hr
  obtain ⟨r₁, hr₁, rfl⟩ := World.mem_updateRows.mp hr'
  by_cases hat : r₀.isAt info.userId info.id = true
  · by_cases hat' : r₁.isAt info.userId info.id = true
    · have hid : r₀.id = r₁.id := (Row.isAt_iff.mp hat).2.trans (Row.isAt_iff.mp hat').2.symm
      rw [Table.eq_of_id_eq hr₀ hr₁ hid]
    · rw [if_pos hat] at hx
      rw [if_neg hat'] at hx'
      exact absurd hx' (hother hr₀ hr₁ hat hat' hx)
  · by_cases hat' : r₁.isAt info.userId info.id = true
    · rw [if_neg hat] at hx
      rw [if_pos hat'] at hx'
      exact absurd hx (hother hr₁ hr₀ hat' hat hx')
    · rw [if_neg hat] at hx ⊢
      rw [if_neg hat'] at hx' ⊢
      exact h r₀ hr₀ r₁ hr₁ x hx hx'

theorem unshared_step {s s' : Site} {m : Move} (h : s.world.Unshared P)
    (hstores : StoresUnshared P s m) (hstep : Site.Step P faults order s m s') :
    s'.world.Unshared P := by
  cases hstep with
  | put hgranted => exact h
  | turn hstep =>
    cases hstep with
    | expired => exact h
    | served hexec =>
      cases rewrites_of_exec hexec with
      | same hrows =>
        intro r hr r' hr'
        rw [hrows] at hr hr'
        exact h r hr r' hr'
      | created info id hnext hpos hmax hq hok hrows =>
        subst hq
        exact h.insert hstores hrows
      | updated info hq hok hrows =>
        subst hq
        exact h.update hstores hrows
      | deleted u i hq hok hrows =>
        intro r hr r' hr'
        rw [hrows] at hr hr'
        exact h r (World.mem_deleteRows.mp hr).1 r' (World.mem_deleteRows.mp hr').1

end Runs

/-- A deletion keeps the other rows, and the objects they name unless one of them shares the
object of the deleted row; in a run that never stores the object of another row it always
does. -/
theorem deletion_keeps_others (P : Platform) (faults : Faults) (order : RowOrder)
    (users : Table User User.id) (objects : Set (Bytes × Bytes)) :
    (∀ s, Reaches (Site.Step P faults order) (.start users objects) s → ∀ u i calls w',
      Prog.Exec (World.does faults order) s.world (serve P (.deleteResource u i)) calls w'
        (.status (ascii "deleted")) →
      w'.resources = (s.world.deleteRows u i).resources ∧ ∃ r, s.world.found u i = [r] ∧
        (KeepsOthers P u i s.world w' ↔ ¬ s.world.Shares P r)) ∧
    ∀ s, Runs (Site.Step P faults order) (StoresUnshared P) (.start users objects) s →
      ∀ u i calls w', Prog.Exec (World.does faults order) s.world (serve P (.deleteResource u i))
        calls w' (.status (ascii "deleted")) → KeepsOthers P u i s.world w' := by
  constructor
  · intro s _ u i calls w' hexec
    obtain ⟨r, hfound, hrows, hobjects⟩ := deleted_exec hexec
    exact ⟨hrows, r, hfound, keepsOthers_iff hfound hrows hobjects⟩
  · intro s hrun u i calls w' hexec
    obtain ⟨r, hfound, hrows, hobjects⟩ := deleted_exec hexec
    have hunshared : s.world.Unshared P := Runs.invariant (I := fun s : Site => s.world.Unshared P)
      hrun (fun _ _ _ h hstores hstep => unshared_step h hstores hstep) fun _ hr => (nomatch hr)
    obtain ⟨hr, -⟩ := World.mem_of_found hfound
    refine (keepsOthers_iff hfound hrows hobjects).mpr ?_
    rintro ⟨r', hr', hne, x, -, hx, hx'⟩
    exact hne (hunshared r' hr' r hr x hx' hx)

/-- The object that user 2 uploads five milliseconds into the epoch. -/
def sharedKey : Bytes := uploadKey 2 5 (ascii "a.txt")

/-- A file of user `u` at its URL. -/
def sharedFile (u : ℤ) : ResourceInfo where
  id := 0
  userId := u
  title := ascii "mine"
  content := bare.publicUrl sharedKey
  isFile := true

theorem sharedFile_names (u i : ℤ) : ((sharedFile u).row i).Names bare (bare.bucket, sharedKey) := by
  have hgetenv : bare.CStrings := fun _ _ h => (nomatch h)
  exact ResourceInfo.row_names hgetenv rfl rfl i

theorem shared_runs : ∃ s, Reaches (Site.Step bare .never ⟨id, fun _ => .refl _⟩)
      (.start (.empty User User.id) ∅) s ∧
    (sharedFile 2).row 1 ∈ s.world.resources.rows ∧ (sharedFile 3).row 2 ∈ s.world.resources.rows ∧
    (bare.bucket, sharedKey) ∈ s.world.objects := by
  have haccepted : uploadRefusal bare (ascii "a.txt") (ascii "text/plain") = none := by decide +kernel
  have hminio : ¬ ascii "amazonaws.com" <:+: bare.publicEndpoint := by decide +kernel
  obtain ⟨calls, answer, hupload, hok, hurl, hkey, -⟩ :=
    exists_upload bare .never ⟨id, fun _ => .refl _⟩ (.initial (.empty User User.id) ∅) 2 5
      haccepted hminio
  have haction : Prog.Exec (World.does .never ⟨id, fun _ => .refl _⟩) _
    (StorageService.createUploadUrl bare 2 (ascii "a.txt") (ascii "text/plain")) calls _ answer :=
    hupload
  have hgranted : (bare.bucket, sharedKey) ∈
      (∅ : Set (Bytes × Bytes)) ∪ Turn.granted (.served (.createUploadUrl 2 (ascii "a.txt")
        (ascii "text/plain")) calls answer) := Or.inr (granted_of_upload haction hok hkey)
  obtain ⟨calls₁, w₁, hfirst, hrows₁, hobjects₁⟩ := exec_createResource .never ⟨id, fun _ => .refl _⟩
    { World.initial (.empty User User.id) ∅ with objects := ∅ ∪ {(bare.bucket, sharedKey)} }
    (sharedFile 2) 1 (by decide) (by decide) (by decide) bare
  have hnext : w₁.resources.nextId ≤ 2 := by
    rw [hrows₁]
    decide
  obtain ⟨calls₂, w₂, hsecond, hrows₂, hobjects₂⟩ := exec_createResource .never ⟨id, fun _ => .refl _⟩
    w₁ (sharedFile 3) 2 hnext (by decide) (by decide) bare
  refine ⟨_, (((Runs.refl.snoc (.turn (.served hupload)) trivial).snoc (.put hgranted) trivial).snoc
    (.turn (.served hfirst)) trivial).snoc (.turn (.served hsecond)) trivial, ?_, ?_, ?_⟩
  · change (sharedFile 2).row 1 ∈ w₂.resources.rows
    rw [hrows₂]
    refine (Table.mem_insert hnext _ _).mpr (Or.inl ?_)
    rw [hrows₁]
    exact (Table.mem_insert _ _ _).mpr (Or.inr rfl)
  · change (sharedFile 3).row 2 ∈ w₂.resources.rows
    rw [hrows₂]
    exact (Table.mem_insert hnext _ _).mpr (Or.inr rfl)
  · change (bare.bucket, sharedKey) ∈ w₂.objects
    rw [hobjects₂, hobjects₁]
    exact Or.inr rfl

/-- The row of user 3 loses its object when user 2 deletes. -/
theorem shared_object_lost :
    ¬ ∀ s, Reaches (Site.Step bare .never ⟨id, fun _ => .refl _⟩)
        (.start (.empty User User.id) ∅) s → ∀ u i calls w',
      Prog.Exec (World.does .never ⟨id, fun _ => .refl _⟩) s.world
        (serve bare (.deleteResource u i)) calls w' (.status (ascii "deleted")) →
      KeepsOthers bare u i s.world w' := by
  intro h
  obtain ⟨s, hrun, hfirst, hsecond, hobject⟩ := shared_runs
  have hnames := sharedFile_names 2 1
  obtain ⟨⟨calls, w', answer, hexec⟩, hall⟩ := (deletable_iff hfirst).mpr (fun _ => hnames.2.1)
    .never ⟨id, fun _ => .refl _⟩ id id
  obtain ⟨rfl, -⟩ := hall calls w' answer hexec
  have hkeeps := h s hrun 2 1 calls w' hexec
  obtain ⟨r, hfound, hrows, hobjects⟩ := deleted_exec hexec
  rw [World.found_self hfirst] at hfound
  obtain rfl := (List.cons.inj hfound).1
  refine (keepsOthers_iff (World.found_self hfirst) hrows hobjects).mp hkeeps ?_
  exact ⟨_, hsecond, by decide, _, hobject, hnames, sharedFile_names 3 2⟩

end Service
end ResourceServer
