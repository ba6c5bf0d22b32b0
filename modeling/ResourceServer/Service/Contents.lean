import ResourceServer.Service.Deletion

/-!
# What the rows of a run hold

The rows behind a call are those before it, but for the one row that a `POST`, a `PUT` or a
`DELETE` is about. An owner can delete exactly the rows that are no files or whose content
names an object, so a run decides with each file it stores whether it can be deleted again.
-/

namespace ResourceServer
namespace Service

open CString

/-- What a call of `q` does to the table; it changes rows only if it answers no error. -/
inductive Rewrites (q : ServiceQuery) (answer : Json) (w w' : World) : Prop where
  | same (hrows : w'.resources = w.resources)
  | created (info : ResourceInfo) (id : ℤ) (hnext : w.resources.nextId ≤ id) (hpos : 0 < id)
      (hmax : id ≤ intMax) (hq : q = .createResource info) (hok : answer.error? = none)
      (hrows : w'.resources = w.resources.insert (info.row id) hnext hpos hmax)
  | updated (info : ResourceInfo) (hq : q = .updateResource info) (hok : answer.error? = none)
      (hrows : w'.resources =
        (w.updateRows (cstr info.title) (cstr info.content) info.userId info.id).resources)
  | deleted (u i : ℤ) (hq : q = .deleteResource u i) (hok : answer.error? = none)
      (hrows : w'.resources = (w.deleteRows u i).resources)

/-- Where the rows behind a call come from. -/
inductive Row.Origin (q : ServiceQuery) (w : World) (r : Row) : Prop where
  | kept (hr : r ∈ w.resources.rows)
  | created (info : ResourceInfo) (hq : q = .createResource info) (id : ℤ) (hrow : r = info.row id)
  | updated (info : ResourceInfo) (hq : q = .updateResource info) (r₀ : Row)
      (hr₀ : r₀ ∈ w.found info.userId info.id)
      (hrow : r = { r₀ with title := cstr info.title, content := cstr info.content })

section Calls

variable {P : Platform} {faults : Faults} {order : RowOrder} {q : ServiceQuery} {w w' : World}
  {calls : History} {answer : Json}

/-- Only three queries write rows. -/
theorem resources_of_guard (hcreate : ∀ info, q ≠ .createResource info)
    (hupdate : ∀ info, q ≠ .updateResource info) (hdelete : ∀ u i, q ≠ .deleteResource u i)
    (hexec : Prog.Exec (World.does faults order) w (serve P q) calls w' answer) :
    w'.resources = w.resources := by
  refine exec_resources hexec fun e he => ?_
  obtain ⟨before, after, rfl⟩ := List.append_of_mem he
  obtain ⟨-, -, hguard⟩ := hexec.along (I := fun _ _ => True) (serve_traces P q)
    (fun _ _ _ _ _ _ _ _ => trivial) trivial
  have hguard := hguard before e after rfl
  obtain ⟨a, r⟩ := e
  cases a with
  | insertResource =>
    obtain ⟨info, hq, -⟩ := hguard
    exact absurd hq (hcreate info)
  | updateResource =>
    obtain ⟨info, hq, -⟩ := hguard
    exact absurd hq (hupdate info)
  | deleteResource => exact absurd hguard (hdelete _ _)
  | _ => rfl

theorem rewrites_of_exec
    (hexec : Prog.Exec (World.does faults order) w (serve P q) calls w' answer) :
    Rewrites q answer w w' := by
  cases q with
  | createResource info =>
    obtain ⟨rfl, id, hnext, hpos, hmax, hrows⟩ | ⟨-, hsame⟩ := createResource_exec hexec
    · exact .created info id hnext hpos hmax rfl rfl hrows
    · exact .same hsame
  | updateResource info =>
    obtain ⟨rfl, -, hrows⟩ | ⟨-, hsame⟩ := updateResource_exec hexec
    · exact .updated info rfl rfl hrows
    · exact .same hsame
  | deleteResource u i =>
    cases deleteResource_exec hexec with
    | unread hcause hrows | unremoved hr hfile hcause hrows | undeleted hr hcause hremoved hrows =>
      exact .same hrows
    | deleted hr hkey hrows => exact .deleted u i rfl rfl hrows
  | _ => exact .same (resources_of_guard (by simp) (by simp) (by simp) hexec)

theorem Rewrites.origin {r : Row} (h : Rewrites q answer w w') (hr : r ∈ w'.resources.rows) :
    r.Origin q w := by
  cases h with
  | same hrows =>
    rw [hrows] at hr
    exact .kept hr
  | created info id hnext hpos hmax hq hok hrows =>
    rw [hrows] at hr
    rcases (Table.mem_insert hnext hpos hmax).mp hr with hr | rfl
    · exact .kept hr
    · exact .created info hq id rfl
  | updated info hq hok hrows =>
    rw [hrows] at hr
    obtain ⟨r₀, hr₀, rfl⟩ := World.mem_updateRows.mp hr
    split_ifs with hat
    · exact .updated info hq r₀ (Table.mem_select.mpr ⟨hr₀, hat⟩) rfl
    · exact .kept hr₀
  | deleted u i hq hok hrows =>
    rw [hrows] at hr
    exact .kept (World.mem_deleteRows.mp hr).1

end Calls

/-- A property of the owner and the content of file rows. -/
abbrev ContentProperty := ℤ → Bytes → Prop

/-- The content a turn stores in a file row has the property `C`. -/
def StoresFiles (C : ContentProperty) (w : World) : Turn → Prop
  | .served (.createResource info) _ _ => info.isFile = true → C info.userId (cstr info.content)
  | .served (.updateResource info) _ _ =>
    (∃ r ∈ w.found info.userId info.id, r.isFile = true) → C info.userId (cstr info.content)
  | _ => True

def World.FilesHold (C : ContentProperty) (w : World) : Prop :=
  ∀ r ∈ w.resources.rows, r.isFile = true → C r.userId r.content

theorem filesHold_step {P : Platform} {faults : Faults} {order : RowOrder} {C : ContentProperty}
    {w w' : World} {turn : Turn} (hw : w.FilesHold C) (hstores : StoresFiles C w turn)
    (hstep : World.Step P faults order w turn w') : w'.FilesHold C := by
  cases hstep with
  | expired => exact hw
  | @served _ q calls answer hexec =>
    intro r hr hfile
    cases (rewrites_of_exec hexec).origin hr with
    | kept hr => exact hw r hr hfile
    | created info hq id hrow =>
      subst hq hrow
      exact hstores hfile
    | updated info hq r₀ hr₀ hrow =>
      subst hq hrow
      have hstored : C info.userId (cstr info.content) := hstores ⟨r₀, hr₀, hfile⟩
      obtain ⟨-, huser, -⟩ := World.mem_of_found (World.found_of_mem hr₀)
      rwa [← huser] at hstored

theorem filesHold_of_runs {P : Platform} {faults : Faults} {order : RowOrder} {C : ContentProperty}
    {users : Table User User.id} {objects : Set (Bytes × Bytes)} {w : World}
    (hrun : Runs (World.Step P faults order) (StoresFiles C) (.initial users objects) w) :
    w.FilesHold C :=
  hrun.invariant (fun _ _ _ hw hstores hstep => filesHold_step hw hstores hstep)
    fun _ hr => (nomatch hr)

def World.Deletable (P : Platform) (w : World) (r : Row) : Prop :=
  ∀ (faults : Faults) (order : RowOrder), ¬ faults.database → ¬ faults.storage →
    (∃ calls w' answer, Prog.Exec (World.does faults order) w
      (serve P (.deleteResource r.userId r.id)) calls w' answer) ∧
    ∀ calls w' answer, Prog.Exec (World.does faults order) w
      (serve P (.deleteResource r.userId r.id)) calls w' answer →
      answer = .status (ascii "deleted") ∧ r ∉ w'.resources.rows

def NamesObject (P : Platform) : ContentProperty := fun _ content => P.objectKey content ≠ []

section Deletable

variable {P : Platform} {faults : Faults} {order : RowOrder} {w w' : World} {r : Row}
  {calls : History} {answer : Json}

theorem exists_deletion (hr : r ∈ w.resources.rows)
    (hkey : r.isFile = true → P.objectKey r.content ≠ []) :
    ∃ calls w' answer, Prog.Exec (World.does faults order) w
      (serve P (.deleteResource r.userId r.id)) calls w' answer := by
  have hfound := World.found_self hr
  by_cases hfile : r.isFile = true
  · obtain ⟨calls, w', answer, hrow⟩ : ∃ calls w' answer, Prog.Exec (World.does faults order)
        { w.setMsg .resource [] with objects := w.objects \ {(P.bucket, P.objectKey r.content)} }
        (ResourceService.deleteRow r.userId r.id) calls w' answer := exec_deleteRow hfound
    exact ⟨_, w', answer, exec_deleteResource hr hfile (hkey hfile) hrow⟩
  · obtain ⟨calls, w', answer, hrow⟩ : ∃ calls w' answer, Prog.Exec (World.does faults order)
        (w.setMsg .resource []) (ResourceService.deleteRow r.userId r.id) calls w' answer :=
      exec_deleteRow hfound
    refine ⟨_, w', answer, Prog.exec_bind_iff.mpr ⟨_, _, _, calls, exec_getResource_dao hfound, ?_, rfl⟩⟩
    dsimp only
    rwa [if_neg (show ¬ r.resource.isFile = true from hfile)]

theorem Deletion.of_available (hdatabase : ¬ faults.database) (hstorage : ¬ faults.storage)
    (hr : r ∈ w.resources.rows)
    (hexec : Prog.Exec (World.does faults order) w (serve P (.deleteResource r.userId r.id)) calls w'
      answer) :
    (r.isFile = true ∧ P.objectKey r.content = [] ∧ answer.error? ≠ none) ∨
      (r.isFile = true → P.objectKey r.content ≠ []) ∧ answer = .status (ascii "deleted") ∧
        r ∉ w'.resources.rows := by
  have hself {r' : Row} (hr' : r' ∈ w.found r.userId r.id) : r' = r := by
    rw [World.found_self hr] at hr'
    exact List.mem_singleton.mp hr'
  cases deleteResource_exec hexec with
  | unread hcause =>
    rcases hcause with hnone | ⟨f, hfailed⟩
    · rw [World.found_self hr] at hnone
      cases hnone
    · obtain ⟨w₁, w₂, hdoes⟩ := hexec.does hfailed
      exact absurd (Faults.of_error hdoes).1 hdatabase
  | @unremoved r' text hr' hfile hcause =>
    obtain rfl := hself hr'
    rcases hcause with hempty | ⟨client, f, hfailed⟩
    · exact Or.inl ⟨hfile, hempty, Json.error?_error_ne_none text⟩
    · obtain ⟨w₁, w₂, hdoes⟩ := hexec.does hfailed
      exact absurd (Faults.of_error hdoes).1 hstorage
  | undeleted hr' hcause =>
    obtain ⟨f, hfailed⟩ := hcause
    obtain ⟨w₁, w₂, hdoes⟩ := hexec.does hfailed
    exact absurd (Faults.of_error hdoes).1 hdatabase
  | @deleted r' hr' hkey hrows =>
    obtain rfl := hself hr'
    refine Or.inr ⟨hkey, rfl, fun hmem => ?_⟩
    rw [hrows] at hmem
    exact World.notMem_deleteRows hr' hmem

theorem deletable_iff (hr : r ∈ w.resources.rows) :
    w.Deletable P r ↔ (r.isFile = true → P.objectKey r.content ≠ []) := by
  constructor
  · intro h hfile hempty
    obtain ⟨⟨calls, w', answer, hexec⟩, hall⟩ := h .never ⟨id, fun _ => .refl _⟩ id id
    obtain ⟨hdeleted, -⟩ := hall calls w' answer hexec
    rcases Deletion.of_available id id hr hexec with ⟨-, -, herror⟩ | ⟨hkey, -⟩
    · rw [hdeleted] at herror
      exact herror rfl
    · exact hkey hfile hempty
  · intro hkey faults order hdatabase hstorage
    refine ⟨exists_deletion hr hkey, fun calls w' answer hexec => ?_⟩
    rcases Deletion.of_available hdatabase hstorage hr hexec with ⟨hfile, hempty, -⟩ | ⟨-, hgone⟩
    · exact absurd hempty (hkey hfile)
    · exact hgone

end Deletable

/-- In a run that stores in file rows only content that names an object, every row can be
deleted by its owner; and a row can be deleted exactly if it is no file or names one. -/
theorem rows_deletable (P : Platform) (faults : Faults) (order : RowOrder)
    (users : Table User User.id) (objects : Set (Bytes × Bytes)) :
    (∀ w, Runs (World.Step P faults order) (StoresFiles (NamesObject P)) (.initial users objects) w →
      ∀ r ∈ w.resources.rows, w.Deletable P r) ∧
    ∀ w : World, ∀ r ∈ w.resources.rows,
      w.Deletable P r ↔ (r.isFile = true → P.objectKey r.content ≠ []) := by
  refine ⟨fun w hrun r hr => ?_, fun w r hr => deletable_iff hr⟩
  have hnames : w.FilesHold (NamesObject P) := filesHold_of_runs hrun
  exact (deletable_iff hr).mpr (hnames r hr)

theorem exec_createResource (faults : Faults) (order : RowOrder) (w : World) (info : ResourceInfo)
    (id : ℤ) (hnext : w.resources.nextId ≤ id) (hpos : 0 < id) (hmax : id ≤ intMax) (P : Platform) :
    ∃ calls w', Prog.Exec (World.does faults order) w (serve P (.createResource info)) calls w'
        (.status (ascii "created")) ∧
      w'.resources = w.resources.insert (info.row id) hnext hpos hmax ∧ w'.objects = w.objects :=
  ⟨_, _, .call (r := ()) rfl (.call (Or.inl ⟨rfl, id, hnext, hpos, hmax, rfl⟩)
    (.call (Or.inl ⟨rfl, rfl⟩) (.ret _ _))), rfl, rfl⟩

def noteFile : ResourceInfo where
  id := 0
  userId := 2
  title := ascii "mine"
  content := ascii "notes"
  isFile := true

/-- Its row cannot be deleted. -/
theorem note_undeletable :
    ¬ ∀ w, Reaches (World.Step bare .never ⟨id, fun _ => .refl _⟩)
        (.initial (.empty User User.id) ∅) w →
      ∀ r ∈ w.resources.rows, w.Deletable bare r := by
  intro h
  obtain ⟨calls, w, hcreate, hrows, -⟩ := exec_createResource .never ⟨id, fun _ => .refl _⟩
    (.initial (.empty User User.id) ∅) noteFile 1 (by decide) (by decide) (by decide) bare
  have hrow : noteFile.row 1 ∈ w.resources.rows := by
    rw [hrows]
    exact (Table.mem_insert _ _ _).mpr (Or.inr rfl)
  have hempty : bare.objectKey (noteFile.row 1).content = [] := by decide +kernel
  have hdeletable := h w (Runs.refl.snoc (.served hcreate) trivial) _ hrow
  exact (deletable_iff hrow).mp hdeletable rfl hempty

end Service
end ResourceServer
