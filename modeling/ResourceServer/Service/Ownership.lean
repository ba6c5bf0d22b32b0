import ResourceServer.Service.Calls

/-!
# Object ownership

Which objects are signed for reading or removed on behalf of a user. The object is chosen
by the stored content, so the question is what content file rows may hold.
-/

namespace ResourceServer
namespace Service

open CString

variable (P : Platform)

def Action.objectKey? : Action → Option Bytes
  | .presign _ .get _ key _ => some key
  | .removeObject _ _ key => some key
  | _ => none

/-- A turn reads and removes objects of its own user only. -/
def ObjectsOwned : Turn → Prop
  | .served q calls _ => ∀ u, q.actingUser = some u → ∀ e ∈ calls, ∀ key,
    e.op.objectKey? = some key → uploadPrefix u <+: key
  | .expired _ => True

/-- The content names an object of `u`, or none. -/
def OwnContent (u : ℤ) (content : Bytes) : Prop :=
  P.objectKey content = [] ∨ uploadPrefix u <+: P.objectKey content

/-- The condition: content stored in a file row is its owner's. -/
def StoresOwnContent (w : World) : Turn → Prop
  | .served (.createResource info) _ _ =>
    info.isFile = true → OwnContent P info.userId (cstr info.content)
  | .served (.updateResource info) _ _ =>
    (∃ r ∈ w.found info.userId info.id, r.isFile = true) →
      OwnContent P info.userId (cstr info.content)
  | _ => True

def World.FilesOwned (w : World) : Prop :=
  ∀ r ∈ w.resources.rows, r.isFile = true → OwnContent P r.userId r.content

variable {P} {faults : Faults} {order : RowOrder}

/-- What holds in the middle of a call of `q` that started in `w₀`. -/
structure OwnedSoFar (P : Platform) (q : ServiceQuery) (w₀ w : World) (past : History) : Prop where
  rows : w.FilesOwned P
  selected : ∀ u content, SelectedFile past u content → OwnContent P u content
  -- an update finds the file rows of the start
  kept : ∀ info, q = .updateResource info → ∀ r ∈ w.resources.rows, r.isFile = true →
    ∃ r₀ ∈ w₀.resources.rows, r₀.isFile = true ∧ r₀.userId = r.userId ∧ r₀.id = r.id

theorem World.head?_found {w : World} {u i : ℤ} {r : Row} (h : (w.found u i).head? = some r) :
    r ∈ w.resources.rows ∧ r.userId = u ∧ r.id = i := by
  obtain ⟨hmem, hat⟩ := Table.mem_select.mp (List.mem_of_mem_head? (Option.mem_def.mpr h))
  exact ⟨hmem, Row.isAt_iff.mp hat⟩

theorem selectedFile_snoc {past : History} {e : Event actions} {u : ℤ} {content : Bytes}
    (h : SelectedFile (past ++ [e]) u content) :
    SelectedFile past u content ∨ ∃ i, ∃ r : Resource,
      e = ⟨.selectResource u i, Except.ok (some r)⟩ ∧ r.isFile = true ∧ r.content = content := by
  obtain ⟨i, r, hmem, hfile, hcontent⟩ := h
  rcases List.mem_append.mp hmem with hmem | hmem
  · exact Or.inl ⟨i, r, hmem, hfile, hcontent⟩
  · exact Or.inr ⟨i, r, (List.mem_singleton.mp hmem).symm, hfile, hcontent⟩

theorem OwnedSoFar.selected_snoc {q : ServiceQuery} {w₀ w w' : World} {past : History} {a : Action}
    {r : a.Ret} (h : OwnedSoFar P q w₀ w past) (hdoes : World.does faults order a w r w') :
    ∀ u content, SelectedFile (past ++ [⟨a, r⟩]) u content → OwnContent P u content := by
  intro u content hsel
  rcases selectedFile_snoc hsel with hsel | ⟨i, res, he, hfile, rfl⟩
  · exact h.selected u content hsel
  · cases he
    obtain ⟨hres, -⟩ := Faults.of_ok hdoes
    obtain ⟨row, hrow, rfl⟩ := Option.map_eq_some_iff.mp hres.symm
    obtain ⟨hmem, rfl, -⟩ := World.head?_found hrow
    exact h.rows row hmem hfile

theorem OwnedSoFar.step {q : ServiceQuery} {w₀ w w' : World} {past : History} {a : Action}
    {r : a.Ret} (hturn : ∀ calls answer, StoresOwnContent P w₀ (.served q calls answer))
    (hguard : Guard P q a past) (h : OwnedSoFar P q w₀ w past)
    (hdoes : World.does faults order a w r w') :
    OwnedSoFar P q w₀ w' (past ++ [⟨a, r⟩]) := by
  have hselected := h.selected_snoc hdoes
  cases hwrites : a.writesRows with
  | false =>
    have hsame := World.does_resources hdoes hwrites
    refine ⟨?_, hselected, ?_⟩
    · rw [World.FilesOwned, hsame]
      exact h.rows
    · rw [hsame]
      exact h.kept
  | true =>
    cases a with
    | insertResource u title content isFile =>
      obtain ⟨info, rfl, rfl, rfl, rfl⟩ := hguard
      refine ⟨?_, hselected, nofun⟩
      rcases hdoes with ⟨-, id, hnext, hpos, hmax, rfl⟩ | ⟨-, -, rfl⟩
      · intro row hrow hfile
        rcases World.mem_insertRow.mp hrow with hrow | rfl
        · exact h.rows row hrow hfile
        · exact hturn [] .null hfile
      · exact h.rows
    | updateResource title content u i =>
      obtain ⟨info, rfl, rfl, rfl, rfl⟩ := hguard
      rcases hdoes with ⟨-, rfl⟩ | ⟨-, -, rfl⟩
      · refine ⟨fun row hrow hfile => ?_, hselected, fun info' hinfo row hrow hfile => ?_⟩
        · obtain ⟨r₀, hr₀, rfl⟩ := World.mem_updateRows.mp hrow
          split_ifs at hfile ⊢ with hat
          · obtain ⟨huser, hid⟩ := Row.isAt_iff.mp hat
            obtain ⟨r₁, hr₁, hfile₁, huser₁, hid₁⟩ := h.kept info rfl r₀ hr₀ hfile
            have hfound : r₁ ∈ w₀.found info.userId info.id :=
              Table.mem_select.mpr ⟨hr₁, Row.isAt_iff.mpr ⟨huser₁.trans huser, hid₁.trans hid⟩⟩
            have hown : OwnContent P info.userId (cstr info.content) :=
              hturn [] .null ⟨r₁, hfound, hfile₁⟩
            simpa only [huser] using hown
          · exact h.rows r₀ hr₀ hfile
        · obtain ⟨r₀, hr₀, rfl⟩ := World.mem_updateRows.mp hrow
          obtain ⟨r₁, hr₁, hfile₁, huser₁, hid₁⟩ :=
            h.kept info' hinfo r₀ hr₀ (by split_ifs at hfile <;> exact hfile)
          exact ⟨r₁, hr₁, hfile₁, by split_ifs <;> exact huser₁, by split_ifs <;> exact hid₁⟩
      · exact ⟨h.rows, hselected, h.kept⟩
    | deleteResource i u =>
      rcases hdoes with ⟨-, rfl⟩ | ⟨-, -, rfl⟩
      · exact ⟨fun row hrow => h.rows row (World.mem_deleteRows.mp hrow).1, hselected,
          fun info hinfo row hrow => h.kept info hinfo row (World.mem_deleteRows.mp hrow).1⟩
      · exact ⟨h.rows, hselected, h.kept⟩
    | _ => cases hwrites

theorem ownedSoFar_of_exec {q : ServiceQuery} {w w' : World} {calls : History} {answer : Json}
    (hw : w.FilesOwned P) (hturn : ∀ calls answer, StoresOwnContent P w (.served q calls answer))
    (hexec : Prog.Exec (World.does faults order) w (serve P q) calls w' answer) :
    OwnedSoFar P q w w' calls ∧
      ∀ before e after, calls = before ++ e :: after → Guard P q e.op before := by
  have hstart : OwnedSoFar P q w w [] :=
    ⟨hw, fun u content ⟨i, r, hmem, _⟩ => (nomatch hmem),
      fun info _ r hr hfile => ⟨r, hr, hfile, rfl, rfl⟩⟩
  obtain ⟨-, hend, hguard⟩ := hexec.along (serve_traces P q)
    (fun a w r w' past hguard h hdoes => OwnedSoFar.step hturn hguard h hdoes) hstart
  exact ⟨hend, hguard⟩

theorem objectsOwned_of_filesOwned {w w' : World} {turn : Turn} (hw : w.FilesOwned P)
    (hstep : World.Step P faults order w turn w') : ObjectsOwned turn := by
  cases hstep with
  | expired => trivial
  | @served _ q calls answer hexec =>
    intro u hu e he key hkey
    obtain ⟨before, after, rfl⟩ := List.append_of_mem he
    obtain ⟨-, -, hguard⟩ := hexec.along (I := fun _ _ => True) (serve_traces P q)
      (fun _ _ _ _ _ _ _ _ => trivial) trivial
    have hnamed : NamesSelectedFile P q before key := by
      have hguard := hguard before e after rfl
      rw [List.nil_append] at hguard
      obtain ⟨a, r⟩ := e
      cases a with
      | presign client method =>
        cases method with
        | get =>
          cases hkey
          exact hguard
        | put => cases hkey
      | removeObject =>
        cases hkey
        exact hguard
      | _ => cases hkey
    obtain ⟨u', i, content, hq, ⟨j, r, hmem, hfile⟩, rfl, hne⟩ := hnamed
    have huser : u' = u := by
      rcases hq with rfl | rfl <;> exact Option.some.inj hu
    have hturn : ∀ calls answer, StoresOwnContent P w (.served q calls answer) := by
      rcases hq with rfl | rfl <;> exact fun _ _ => trivial
    obtain ⟨hend, -⟩ := ownedSoFar_of_exec hw hturn hexec
    have hown := hend.selected u' content ⟨j, r, List.mem_append_left _ hmem, hfile⟩
    exact huser ▸ hown.resolve_left hne

theorem filesOwned_step {w w' : World} {turn : Turn} (hw : w.FilesOwned P)
    (hturn : StoresOwnContent P w turn) (hstep : World.Step P faults order w turn w') :
    w'.FilesOwned P := by
  cases hstep with
  | expired => exact hw
  | @served _ q calls answer hexec =>
    refine (ownedSoFar_of_exec hw (fun calls' answer' => ?_) hexec).1.rows
    cases q <;> exact hturn

theorem exec_getResource_dao {w : World} {r : Row} (hfound : w.found r.userId r.id = [r]) :
    Prog.Exec (World.does faults order) w (ResourceDAO.getResource r.userId r.id)
      [cleared .resource, ⟨.selectResource r.userId r.id, Except.ok (some r.resource)⟩]
      (w.setMsg .resource []) (some r.resource) := by
  refine .call rfl (.call (Or.inl ⟨?_, rfl⟩) (.ret _ _))
  change Except.ok (some r.resource) = Except.ok ((w.found r.userId r.id).head?.map Row.resource)
  rw [hfound]
  rfl

theorem exec_deleteFile {w : World} {content : Bytes} (hkey : P.objectKey content ≠ []) :
    Prog.Exec (World.does faults order) w (StorageService.deleteFile P content)
      [⟨.removeObject (P.minioClient P.internalEndpoint) P.bucket (P.objectKey content), Except.ok ()⟩]
      { w with objects := w.objects \ {(P.bucket, P.objectKey content)} } (.ok ()) := by
  unfold StorageService.deleteFile
  dsimp only
  rw [if_neg hkey]
  exact .call (Or.inl ⟨rfl, rfl⟩) (.ret _ _)

theorem exec_deleteRow {w : World} {r : Row} (hfound : w.found r.userId r.id = [r]) :
    ∃ calls w' answer, Prog.Exec (World.does faults order) w
      (ResourceService.deleteRow r.userId r.id) calls w' answer := by
  have hdelete : Prog.Exec (World.does faults order) w (ResourceDAO.deleteResource r.userId r.id)
      [cleared .resource, ⟨.deleteResource r.id r.userId, Except.ok 1⟩]
      ((w.setMsg .resource []).deleteRows r.userId r.id) true := by
    refine .call rfl (.call (Or.inl ⟨?_, rfl⟩) (.ret _ _))
    change Except.ok 1 = Except.ok (w.found r.userId r.id).length
    rw [hfound]
    rfl
  exact ⟨_, _, _, Prog.exec_bind_iff.mpr ⟨_, _, _, _, hdelete,
    .call (Or.inl ⟨rfl, rfl⟩) (.call (Or.inl ⟨rfl, rfl⟩) (.ret _ _)), rfl⟩⟩

theorem exec_deleteResource {w w' : World} {r : Row} {calls : History} {answer : Json}
    (hr : r ∈ w.resources.rows) (hfile : r.isFile = true) (hkey : P.objectKey r.content ≠ [])
    (hrow : Prog.Exec (World.does faults order)
      { w.setMsg .resource [] with objects := w.objects \ {(P.bucket, P.objectKey r.content)} }
      (ResourceService.deleteRow r.userId r.id) calls w' answer) :
    Prog.Exec (World.does faults order) w (serve P (.deleteResource r.userId r.id))
      ([cleared .resource, ⟨.selectResource r.userId r.id, Except.ok (some r.resource)⟩] ++
        ([⟨.removeObject (P.minioClient P.internalEndpoint) P.bucket (P.objectKey r.content),
          Except.ok ()⟩] ++ calls)) w' answer := by
  refine Prog.exec_bind_iff.mpr ⟨_, _, _, _, exec_getResource_dao (World.found_self hr), ?_, rfl⟩
  dsimp only
  rw [if_pos (show r.resource.isFile = true from hfile)]
  exact Prog.exec_bind_iff.mpr ⟨_, _, _, _, exec_deleteFile hkey, hrow, rfl⟩

theorem exists_foreign_removal {w : World} {r : Row} (hr : r ∈ w.resources.rows)
    (hfile : r.isFile = true) (hcontent : ¬ OwnContent P r.userId r.content) :
    ∃ turn w', World.Step P faults order w turn w' ∧ ¬ ObjectsOwned turn := by
  have hfound := World.found_self hr
  obtain ⟨hne, hforeign⟩ := not_or.mp hcontent
  obtain ⟨calls, w', answer, hrow⟩ : ∃ calls w' answer, Prog.Exec (World.does faults order)
      { w.setMsg .resource [] with objects := w.objects \ {(P.bucket, P.objectKey r.content)} }
      (ResourceService.deleteRow r.userId r.id) calls w' answer := exec_deleteRow hfound
  refine ⟨_, _, .served (exec_deleteResource hr hfile hne hrow), fun howned => ?_⟩
  have hmem : ⟨.removeObject (P.minioClient P.internalEndpoint) P.bucket (P.objectKey r.content),
      Except.ok ()⟩ ∈ [cleared .resource,
        ⟨.selectResource r.userId r.id, Except.ok (some r.resource)⟩] ++
      ([(⟨.removeObject (P.minioClient P.internalEndpoint) P.bucket (P.objectKey r.content),
        Except.ok ()⟩ : Event actions)] ++ calls) := by simp
  exact hforeign (howned r.userId rfl _ hmem _ rfl)

/-- A run that stores only its owners' content in file rows acts on nobody else's
objects; and the rows decide: they are owned exactly if no next call can do otherwise. -/
theorem objects_owned (P : Platform) (faults : Faults) (order : RowOrder)
    (users : Table User User.id) (objects : Set (Bytes × Bytes)) :
    (∀ w, Runs (World.Step P faults order) (StoresOwnContent P) (.initial users objects) w →
      ∀ turn w', World.Step P faults order w turn w' → ObjectsOwned turn) ∧
    ∀ w : World, (∀ turn w', World.Step P faults order w turn w' → ObjectsOwned turn) ↔
      w.FilesOwned P := by
  refine ⟨fun w hrun turn w' hstep => objectsOwned_of_filesOwned ?_ hstep,
    fun w => ⟨fun h r hr hfile => ?_, fun hw turn w' hstep => objectsOwned_of_filesOwned hw hstep⟩⟩
  · refine Runs.invariant (I := fun w => w.FilesOwned P) hrun (fun w turn w' hw hturn hstep =>
      filesOwned_step hw hturn hstep) ?_
    exact fun r hr => (nomatch hr)
  · by_contra hcontent
    obtain ⟨turn, w', hstep, hforeign⟩ := exists_foreign_removal hr hfile hcontent
    exact hforeign (h turn w' hstep)

/-- Nothing configured, and a JSON library that is never asked. -/
def bare : Platform where
  json := { dump := fun _ => none, parse := fun _ => .error .parseError }
  getenv _ := none
  sha256 _ := []

/-- User 2 stores the URL of an object of user 1. -/
def foreignFile : ResourceInfo where
  id := 0
  userId := 2
  title := ascii "mine"
  content := ascii "http://localhost:9000/webserver-files/users/1/uploads/5-a.txt"
  isFile := true

/-- The row that its creation leaves. -/
def foreignRow : Row := ⟨1, 2, ascii "mine", foreignFile.content, true⟩

theorem foreign_file_removed :
    ¬ ∀ w, Reaches (World.Step bare .never ⟨id, fun _ => .refl _⟩)
        (.initial (.empty User User.id) {(ascii "webserver-files", ascii "users/1/uploads/5-a.txt")}) w →
      ∀ turn w', World.Step bare .never ⟨id, fun _ => .refl _⟩ w turn w' → ObjectsOwned turn := by
  intro h
  have hcreate : Prog.Exec (World.does .never ⟨id, fun _ => .refl _⟩)
      (.initial (.empty User User.id) {(ascii "webserver-files", ascii "users/1/uploads/5-a.txt")})
      (serve bare (.createResource foreignFile)) _ _ _ :=
    Prog.exec_call_iff.mpr ⟨(), _, _, rfl, rfl,
      .call (Or.inl ⟨rfl, 1, by decide, by decide, by decide, rfl⟩)
        (.call (Or.inl ⟨rfl, rfl⟩) (.ret _ _))⟩
  have hforeign : ¬ OwnContent bare foreignRow.userId foreignRow.content := by
    unfold OwnContent
    decide +kernel
  have hrun := Runs.snoc (C := fun _ _ => True) .refl (World.Step.served hcreate) trivial
  have hrow : foreignRow ∈ [foreignRow] := List.mem_singleton.mpr rfl
  refine absurd (h _ hrun) ?_
  push Not
  exact exists_foreign_removal (List.mem_append_right [] hrow) rfl hforeign

end Service
end ResourceServer
