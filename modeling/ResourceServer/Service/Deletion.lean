import ResourceServer.Service.Objects
import ResourceServer.Service.Ownership

/-!
# Deletions

`delete_resource` loads the row, removes the object of a file resource and deletes the row: two
stores, one after the other, and no way back. `Deletion` lists how such a call ends. The
questions are what a failed call leaves behind, and which rows no call can delete.
-/

namespace ResourceServer
namespace Service

open CString

def Row.Names (P : Platform) (r : Row) (x : Bytes × Bytes) : Prop :=
  r.isFile = true ∧ P.objectKey r.content ≠ [] ∧ x = (P.bucket, P.objectKey r.content)

/-- How a deletion of the resource `i` of `u` ends. -/
inductive Deletion (P : Platform) (u i : ℤ) (w w' : World) (calls : History) : Json → Prop where
  | unread {text : Bytes}
      (hcause : w.found u i = [] ∨ ∃ f, ⟨.selectResource u i, Except.error f⟩ ∈ calls)
      (hrows : w'.resources = w.resources) (hobjects : w'.objects = w.objects) :
      Deletion P u i w w' calls (.error text)
  | unremoved {r : Row} {text : Bytes} (hr : r ∈ w.found u i) (hfile : r.isFile = true)
      (hcause : P.objectKey r.content = [] ∨ ∃ client f,
        ⟨.removeObject client P.bucket (P.objectKey r.content), Except.error f⟩ ∈ calls)
      (hrows : w'.resources = w.resources) (hobjects : w'.objects = w.objects) :
      Deletion P u i w w' calls (.error text)
  | undeleted {r : Row} {text : Bytes} (hr : r ∈ w.found u i)
      (hcause : ∃ f, ⟨.deleteResource i u, Except.error f⟩ ∈ calls)
      (hremoved : ∀ x, r.Names P x → ∃ e ∈ calls, removedObject e = some x)
      (hrows : w'.resources = w.resources) (hobjects : w'.objects = w.objects \ {x | r.Names P x}) :
      Deletion P u i w w' calls (.error text)
  | deleted {r : Row} (hr : r ∈ w.found u i)
      (hkey : r.isFile = true → P.objectKey r.content ≠ [])
      (hrows : w'.resources = (w.deleteRows u i).resources)
      (hobjects : w'.objects = w.objects \ {x | r.Names P x}) :
      Deletion P u i w w' calls (.status (ascii "deleted"))

section Ends

variable {P : Platform} {faults : Faults} {order : RowOrder} {u i : ℤ} {w w₁ w' : World}
  {calls : History} {answer : Json}

theorem Row.names_of_key {r : Row} (hfile : r.isFile = true) (hkey : P.objectKey r.content ≠ []) :
    {x | r.Names P x} = {(P.bucket, P.objectKey r.content)} := by
  ext x
  exact ⟨fun hx => hx.2.2, fun hx => ⟨hfile, hkey, hx⟩⟩

theorem Row.names_of_text {r : Row} (hfile : r.isFile ≠ true) : {x | r.Names P x} = ∅ := by
  ext x
  exact ⟨fun hx => hfile hx.1, fun hx => hx.elim⟩

/-- The row's `DELETE`, behind a prelude that removed what the row names. -/
theorem Deletion.of_deleteRow {r : Row} {prelude : History} (hr : r ∈ w.found u i)
    (hkey : r.isFile = true → P.objectKey r.content ≠ [])
    (hremoved : ∀ x, r.Names P x → ∃ e ∈ prelude, removedObject e = some x)
    (hrows : w₁.resources = w.resources) (hobjects : w₁.objects = w.objects \ {x | r.Names P x})
    (hexec : Prog.Exec (World.does faults order) w₁ (ResourceService.deleteRow u i) calls w' answer) :
    Deletion P u i w w' (prelude ++ calls) answer := by
  obtain ⟨-, hsame⟩ := deleteRow_exec hexec
  have hfound : w₁.found u i = w.found u i := by rw [World.found, World.found, hrows]
  obtain ⟨rfl, -, hgone⟩ | ⟨⟨text, rfl⟩, hkept, hcause⟩ := deleteRow_rows hexec
  · refine .deleted hr hkey ?_ (hsame.trans hobjects)
    rw [hgone, World.deleteRows, World.deleteRows, hrows]
  · have hfailed : ∃ f, ⟨.deleteResource i u, Except.error f⟩ ∈ calls := by
      refine hcause.resolve_left fun hnone => ?_
      rw [hfound] at hnone
      rw [hnone] at hr
      cases hr
    obtain ⟨f, hf⟩ := hfailed
    refine .undeleted hr ⟨f, List.mem_append_right _ hf⟩ (fun x hx => ?_) (hkept.trans hrows)
      (hsame.trans hobjects)
    obtain ⟨e, he, hx⟩ := hremoved x hx
    exact ⟨e, List.mem_append_left _ he, hx⟩

theorem deleteResource_exec
    (hexec : Prog.Exec (World.does faults order) w (serve P (.deleteResource u i)) calls w' answer) :
    Deletion P u i w w' calls answer := by
  obtain ⟨loading, w₁, found, rest, hload, hrest, rfl⟩ := Prog.exec_bind_iff.mp hexec
  obtain ⟨-, hobjects, hrows, hfound⟩ := getResource_exec hload
  cases found with
  | none =>
    obtain ⟨text, ⟨-, rfl⟩, rfl, rfl⟩ := readError_exec hrest
    refine .unread ?_ hrows hobjects
    rcases hfound with hnone | ⟨-, f, hf⟩
    · exact Or.inl (List.head?_eq_none_iff.mp (Option.map_eq_none_iff.mp hnone.symm))
    · exact Or.inr ⟨f, List.mem_append_left _ hf⟩
  | some resource =>
    obtain hsome | ⟨hsome, -⟩ := hfound
    swap
    · cases hsome
    obtain ⟨r, hhead, rfl⟩ := Option.map_eq_some_iff.mp hsome.symm
    have hr : r ∈ w.found u i := List.mem_of_mem_head? hhead
    dsimp only at hrest
    split_ifs at hrest with hfile
    · obtain ⟨removing, w₂, removed, last, hremove, hlast, rfl⟩ := Prog.exec_bind_iff.mp hrest
      obtain ⟨hempty, rfl, rfl, m, rfl⟩ |
        ⟨hkey, client, ⟨rfl, rfl, rfl⟩ | ⟨f, m, rfl, rfl, rfl⟩⟩ := deleteFile_exec hremove
      · obtain ⟨rfl, rfl, rfl⟩ := Prog.exec_ret_iff.mp hlast
        exact .unremoved hr hfile (Or.inl hempty) hrows hobjects
      · rw [← List.append_assoc]
        refine .of_deleteRow hr (fun _ => hkey) ?_ ?_ ?_ hlast
        · rintro x ⟨-, -, rfl⟩
          exact ⟨_, List.mem_append_right _ (List.mem_singleton.mpr rfl), rfl⟩
        · exact hrows
        · rw [Row.names_of_key hfile hkey, ← hobjects]
          rfl
      · obtain ⟨rfl, rfl, rfl⟩ := Prog.exec_ret_iff.mp hlast
        exact .unremoved hr hfile (Or.inr ⟨client, f, by simp [Row.resource]⟩) hrows hobjects
    · refine .of_deleteRow hr (fun h => absurd h hfile) ?_ hrows ?_ hrest
      · exact fun x hx => absurd hx.1 hfile
      · rw [Row.names_of_text hfile, Set.sdiff_empty, hobjects]

/-- An error leaves the row and its object, and "deleted" takes both. -/
structure AllOrNothing (P : Platform) (u i : ℤ) (w w' : World) (answer : Json) : Prop where
  error : answer.error? ≠ none → w'.resources = w.resources ∧ w'.objects = w.objects
  deleted : answer = .status (ascii "deleted") → ∃ r, w.found u i = [r] ∧
    r ∉ w'.resources.rows ∧ ∀ x, r.Names P x → x ∉ w'.objects

/-- The object was removed, and then the row's `DELETE` failed. -/
def Halfway (u i : ℤ) (calls : History) : Prop :=
  (∃ e ∈ calls, (removedObject e).isSome = true) ∧
    ∃ f, ⟨.deleteResource i u, Except.error f⟩ ∈ calls

theorem AllOrNothing.of_error {text : Bytes} (hrows : w'.resources = w.resources)
    (hobjects : w'.objects = w.objects) : AllOrNothing P u i w w' (.error text) := by
  refine ⟨fun _ => ⟨hrows, hobjects⟩, fun hdeleted => ?_⟩
  exact absurd hdeleted.symm (Json.ne_error rfl text)

theorem AllOrNothing.of_deleted {r : Row} (hr : r ∈ w.found u i)
    (hrows : w'.resources = (w.deleteRows u i).resources)
    (hobjects : w'.objects = w.objects \ {x | r.Names P x}) :
    AllOrNothing P u i w w' (.status (ascii "deleted")) := by
  refine ⟨fun herror => absurd rfl herror,
    fun _ => ⟨r, World.found_of_mem hr, fun hmem => ?_, fun x hx hmem => ?_⟩⟩
  · rw [hrows] at hmem
    exact World.notMem_deleteRows hr hmem
  · rw [hobjects] at hmem
    exact hmem.2 hx

/-- A deletion is all or nothing, unless the row's `DELETE` fails behind the removal: then the
row stays, and the object it names is gone. -/
theorem deletion_all_or_halfway
    (hexec : Prog.Exec (World.does faults order) w (serve P (.deleteResource u i)) calls w' answer) :
    AllOrNothing P u i w w' answer ∨
      Halfway u i calls ∧ answer.error? ≠ none ∧ w'.resources = w.resources ∧
        ∃ r, w.found u i = [r] ∧ w'.objects = w.objects \ {x | r.Names P x} := by
  cases deleteResource_exec hexec with
  | unread hcause hrows hobjects => exact Or.inl (.of_error hrows hobjects)
  | unremoved hr hfile hcause hrows hobjects => exact Or.inl (.of_error hrows hobjects)
  | @undeleted r text hr hcause hremoved hrows hobjects =>
    by_cases hnames : ∃ x, r.Names P x
    · obtain ⟨x, hx⟩ := hnames
      obtain ⟨e, he, hobject⟩ := hremoved x hx
      have hhalf : Halfway u i calls := ⟨⟨e, he, by rw [hobject, Option.isSome_some]⟩, hcause⟩
      exact Or.inr ⟨hhalf, Json.error?_error_ne_none text, hrows, r, World.found_of_mem hr, hobjects⟩
    · have hempty : {x | r.Names P x} = ∅ :=
        Set.eq_empty_iff_forall_notMem.mpr fun x hx => hnames ⟨x, hx⟩
      rw [hempty, Set.sdiff_empty] at hobjects
      exact Or.inl (.of_error hrows hobjects)
  | deleted hr hkey hrows hobjects => exact Or.inl (.of_deleted hr hrows hobjects)

end Ends

/-- A file of user 2, at the URL of its object. -/
def ownFile : Row :=
  ⟨1, 2, ascii "mine", ascii "http://localhost:9000/webserver-files/users/2/uploads/5-a.txt", true⟩

def ownObject : Bytes × Bytes := (ascii "webserver-files", ascii "users/2/uploads/5-a.txt")

/-- The file and its object, and nothing else. -/
def fileWorld : World :=
  (World.initial (.empty User User.id) {ownObject}).insertRow ownFile (by decide) (by decide) (by decide)

theorem exec_deleteRow_failed (faults : Faults) (order : RowOrder) (hdatabase : faults.database)
    (w : World) (u i : ℤ) : ∃ calls w' text, Prog.Exec (World.does faults order) w
      (ResourceService.deleteRow u i) calls w' (.error text) ∧ w'.objects = w.objects :=
  ⟨_, _, _, .call (r := ()) rfl (.call (Or.inr ⟨hdatabase, ⟨.noConnection, rfl⟩, rfl⟩)
    (.call (r := ()) rfl (.call ⟨rfl, rfl⟩ (.ret _ _)))), rfl⟩

/-- The database fails behind the removal. -/
theorem halfway_runs : ∃ calls w' text, Prog.Exec (World.does ⟨False, True, False⟩ ⟨id, fun _ => .refl _⟩)
    fileWorld (serve bare (.deleteResource 2 1)) calls w' (.error text) ∧
    w'.objects = fileWorld.objects \ {ownObject} := by
  have hr : ownFile ∈ fileWorld.resources.rows := World.mem_insertRow.mpr (Or.inr rfl)
  have hkey : bare.objectKey ownFile.content ≠ [] := by decide +kernel
  have hobject : (bare.bucket, bare.objectKey ownFile.content) = ownObject := by decide +kernel
  obtain ⟨calls, w', text, hrow, hgone⟩ := exec_deleteRow_failed ⟨False, True, False⟩
    ⟨id, fun _ => .refl _⟩ trivial { fileWorld.setMsg .resource [] with
      objects := fileWorld.objects \ {(bare.bucket, bare.objectKey ownFile.content)} }
    ownFile.userId ownFile.id
  refine ⟨_, w', text, exec_deleteResource hr rfl hkey hrow, ?_⟩
  rw [hgone, hobject]

theorem not_all_or_nothing_of_gone {w' : World} {text : Bytes}
    (hgone : w'.objects = fileWorld.objects \ {ownObject}) :
    ¬ AllOrNothing bare 2 1 fileWorld w' (.error text) := by
  intro hall
  obtain ⟨-, hsame⟩ := hall.error (Json.error?_error_ne_none text)
  have hmem : ownObject ∈ fileWorld.objects := Set.mem_singleton ownObject
  rw [← hsame, hgone] at hmem
  exact hmem.2 rfl

/-- The row of `ownFile` stays, its object is gone. -/
theorem half_deleted : ∃ calls w' answer,
    Prog.Exec (World.does ⟨False, True, False⟩ ⟨id, fun _ => .refl _⟩) fileWorld
      (serve bare (.deleteResource 2 1)) calls w' answer ∧
    ¬ AllOrNothing bare 2 1 fileWorld w' answer := by
  obtain ⟨calls, w', text, hexec, hgone⟩ := halfway_runs
  exact ⟨calls, w', _, hexec, not_all_or_nothing_of_gone hgone⟩

theorem halfway_keeps_row : ∃ calls w' answer,
    Prog.Exec (World.does ⟨False, True, False⟩ ⟨id, fun _ => .refl _⟩) fileWorld
      (serve bare (.deleteResource 2 1)) calls w' answer ∧
    Halfway 2 1 calls ∧ w'.resources = fileWorld.resources := by
  obtain ⟨calls, w', text, hexec, hgone⟩ := halfway_runs
  refine ⟨calls, w', _, hexec, ?_⟩
  rcases deletion_all_or_halfway hexec with hall | ⟨hhalf, -, hrows, -⟩
  · exact absurd hall (not_all_or_nothing_of_gone hgone)
  · exact ⟨hhalf, hrows⟩

end Service
end ResourceServer
