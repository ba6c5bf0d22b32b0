import ResourceServer.Service.World

/-!
# Statements that write rows

What `create_resource`, `update_resource` and the row's `DELETE` do to the table, with the
answer that goes with it: a statement that fails, or finds no row, leaves the table as it was
and is answered with an error.
-/

namespace ResourceServer
namespace Service

open CString

/-- The row that `info` becomes under the number `id`. -/
def ResourceInfo.row (info : ResourceInfo) (id : ℤ) : Row :=
  ⟨id, info.userId, cstr info.title, cstr info.content, info.isFile⟩

section Writes

variable {P : Platform} {faults : Faults} {order : RowOrder} {w w' : World}
  {calls : List (Event actions)} {answer : Json}

/-- A run without a statement that writes rows leaves the table. -/
theorem exec_resources {α : Type} {p : ServiceProg α} {a : α}
    (hexec : Prog.Exec (World.does faults order) w p calls w' a)
    (hcalls : ∀ e ∈ calls, e.op.writesRows = false) : w'.resources = w.resources := by
  induction hexec with
  | ret w a => rfl
  | call hstep _ ih =>
    have hrest := ih fun e he => hcalls e (List.mem_cons_of_mem _ he)
    have hfirst := World.does_resources hstep (hcalls _ List.mem_cons_self)
    exact hrest.trans hfirst

theorem failed_resources {d : Dao} {reason : Bytes} {rest : ServiceProg Json}
    (hexec : Prog.Exec (World.does faults order) w (failWith d reason false >>= fun ok =>
      if !ok then readMsg d >>= fun text => return Json.error text else rest) calls w' answer) :
    (∃ text, answer = .error text) ∧ w'.resources = w.resources := by
  obtain ⟨done, w₁, last, hassign, rfl, hlast⟩ := exec_act_iff.mp hexec
  obtain ⟨text, hread, -, hanswer⟩ := readError_exec hlast
  have hassigned := World.does_resources hassign rfl
  have hsame := World.does_resources hread rfl
  exact ⟨⟨text, hanswer⟩, hsame.trans hassigned⟩

/-- The invalidations behind a write leave the table. -/
theorem invalidated_resources {u i : ℤ} {text : Bytes}
    (hexec : Prog.Exec (World.does faults order) w (do
      let _ ← ResourceCache.invalidateResource u i
      let _ ← ResourceCache.invalidateResources u
      return Json.status text) calls w' answer) :
    answer = .status text ∧ w'.resources = w.resources := by
  obtain ⟨ok, w₁, rest, hdel, rfl, hrest⟩ := exec_act_iff.mp hexec
  obtain ⟨ok', w₂, last, hdel', rfl, hlast⟩ := exec_act_iff.mp hrest
  obtain ⟨-, rfl, rfl⟩ := Prog.exec_ret_iff.mp hlast
  have hfirst := World.does_resources hdel rfl
  have hsecond := World.does_resources hdel' rfl
  exact ⟨rfl, hsecond.trans hfirst⟩

theorem createResource_exec {info : ResourceInfo}
    (hexec : Prog.Exec (World.does faults order) w (ResourceService.createResource info) calls w'
      answer) :
    (answer = .status (ascii "created") ∧ ∃ id hnext hpos hmax,
        w'.resources = w.resources.insert (info.row id) hnext hpos hmax) ∨
      (∃ text, answer = .error text) ∧ w'.resources = w.resources := by
  obtain ⟨-, w₁, rest, rfl, rfl, hrest⟩ := exec_act_iff.mp hexec
  obtain ⟨result, w₂, last, hdoes, rfl, hlast⟩ := exec_act_iff.mp hrest
  cases result with
  | error f =>
    right
    obtain ⟨htext, hsame⟩ := failed_resources hlast
    obtain ⟨-, rfl⟩ := Faults.of_error hdoes
    exact ⟨htext, hsame⟩
  | ok _ =>
    left
    obtain ⟨ok, w₃, tail, hdel, rfl, htail⟩ := exec_act_iff.mp hlast
    obtain ⟨-, rfl, rfl⟩ := Prog.exec_ret_iff.mp htail
    obtain ⟨-, id, hnext, hpos, hmax, rfl⟩ := Faults.of_ok hdoes
    exact ⟨rfl, id, hnext, hpos, hmax, World.does_resources hdel rfl⟩

theorem updateResource_exec {info : ResourceInfo}
    (hexec : Prog.Exec (World.does faults order) w (ResourceService.updateResource info) calls w'
      answer) :
    (answer = .status (ascii "updated") ∧ w.found info.userId info.id ≠ [] ∧ w'.resources =
        (w.updateRows (cstr info.title) (cstr info.content) info.userId info.id).resources) ∨
      (∃ text, answer = .error text) ∧ w'.resources = w.resources := by
  obtain ⟨-, w₁, rest, rfl, rfl, hrest⟩ := exec_act_iff.mp hexec
  obtain ⟨result, w₂, last, hdoes, rfl, hlast⟩ := exec_act_iff.mp hrest
  match result with
  | .error f =>
    right
    obtain ⟨htext, hsame⟩ := failed_resources hlast
    obtain ⟨-, rfl⟩ := Faults.of_error hdoes
    exact ⟨htext, hsame⟩
  | .ok 0 =>
    right
    obtain ⟨htext, hsame⟩ := failed_resources hlast
    obtain ⟨hnone, rfl⟩ := Faults.of_ok hdoes
    have hfound : (w.setMsg .resource []).found info.userId info.id = [] :=
      List.length_eq_zero_iff.mp hnone.symm
    rw [World.updateRows_eq_self hfound] at hsame
    exact ⟨htext, hsame⟩
  | .ok (changed + 1) =>
    left
    obtain ⟨rfl, hsame⟩ := invalidated_resources hlast
    obtain ⟨hcount, rfl⟩ := Faults.of_ok hdoes
    have hsome : w.found info.userId info.id ≠ [] :=
      List.ne_nil_of_length_eq_add_one hcount.symm
    exact ⟨rfl, hsome, hsame⟩

/-- Without a failed `DELETE`, a row that was there is gone. -/
theorem deleteRow_rows {u i : ℤ}
    (hexec : Prog.Exec (World.does faults order) w (ResourceService.deleteRow u i) calls w' answer) :
    (answer = .status (ascii "deleted") ∧ w.found u i ≠ [] ∧
        w'.resources = (w.deleteRows u i).resources) ∨
      (∃ text, answer = .error text) ∧ w'.resources = w.resources ∧
        (w.found u i = [] ∨ ∃ f, ⟨.deleteResource i u, Except.error f⟩ ∈ calls) := by
  obtain ⟨-, w₁, rest, rfl, rfl, hrest⟩ := exec_act_iff.mp hexec
  obtain ⟨result, w₂, last, hdoes, rfl, hlast⟩ := exec_act_iff.mp hrest
  match result with
  | .error f =>
    right
    obtain ⟨htext, hsame⟩ := failed_resources hlast
    obtain ⟨-, rfl⟩ := Faults.of_error hdoes
    exact ⟨htext, hsame, Or.inr ⟨f, by simp⟩⟩
  | .ok 0 =>
    right
    obtain ⟨htext, hsame⟩ := failed_resources hlast
    obtain ⟨hnone, rfl⟩ := Faults.of_ok hdoes
    have hfound : (w.setMsg .resource []).found u i = [] :=
      List.length_eq_zero_iff.mp hnone.symm
    rw [World.deleteRows_eq_self hfound] at hsame
    exact ⟨htext, hsame, Or.inl hfound⟩
  | .ok (removed + 1) =>
    left
    obtain ⟨rfl, hsame⟩ := invalidated_resources hlast
    obtain ⟨hcount, rfl⟩ := Faults.of_ok hdoes
    have hsome : w.found u i ≠ [] := List.ne_nil_of_length_eq_add_one hcount.symm
    exact ⟨rfl, hsome, hsame⟩

end Writes

end Service
end ResourceServer
