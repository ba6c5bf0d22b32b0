import ResourceServer.Service.Calls

/-!
# What a call has changed

Of all a call does, at most one statement changes rows, and the answer says whether it did:
an answer without an error stands for the statement the query comes down to, an error for none.
-/

namespace ResourceServer
namespace Service

open CString

/-- The statement on rows that a query comes down to. -/
def ServiceQuery.statement : ServiceQuery → Option Action
  | .createResource info =>
    some (.insertResource info.userId (cstr info.title) (cstr info.content) info.isFile)
  | .updateResource info =>
    some (.updateResource (cstr info.title) (cstr info.content) info.userId info.id)
  | .deleteResource u i => some (.deleteResource i u)
  | _ => none

theorem ServiceQuery.actingUser_of_statement {q : ServiceQuery} (hq : q.statement ≠ none) :
    ∃ u, q.actingUser = some u := by
  cases q with
  | createResource info | updateResource info => exact ⟨info.userId, rfl⟩
  | deleteResource u i => exact ⟨u, rfl⟩
  | _ => exact absurd rfl hq

/-- A statement that has changed rows. -/
def takesEffect : Event actions → Bool
  | ⟨.insertResource .., (.ok _ : Except DbFailure Unit)⟩ => true
  | ⟨.updateResource .., (.ok (_ + 1) : Except DbFailure ℕ)⟩ => true
  | ⟨.deleteResource .., (.ok (_ + 1) : Except DbFailure ℕ)⟩ => true
  | _ => false

theorem takesEffect_of_reads {e : Event actions} (he : e.op.writesRows = false) :
    takesEffect e = false := by
  obtain ⟨op, r⟩ := e
  cases op with
  | insertResource | updateResource | deleteResource => cases he
  | _ => rfl

/-- The statements that have changed rows. -/
def changes (past : History) : List Action := (past.filter takesEffect).map Event.op

@[simp] theorem changes_nil : changes [] = [] := rfl

theorem changes_append (past past' : History) : changes (past ++ past') = changes past ++ changes past' := by
  simp [changes]

theorem changes_snoc {past : History} {e : Event actions} {l : List Action} (hpast : changes past = l)
    (he : takesEffect e = false) : changes (past ++ [e]) = l := by
  rw [changes_append, hpast]
  simp [changes, he]

theorem changes_effect {past : History} {e : Event actions} (hpast : changes past = [])
    (he : takesEffect e = true) : changes (past ++ [e]) = [e.op] := by
  rw [changes_append, hpast]
  simp [changes, he]

theorem changes_storage {past tail : History} (htail : ∀ e ∈ tail, e.op.isStorage = true) :
    changes (past ++ tail) = changes past := by
  refine storage_induction (motive := fun l => changes l = changes past) htail rfl fun l e he ih => ?_
  have hreads : e.op.writesRows = false := by
    obtain ⟨op, r⟩ := e
    cases op with
    | insertResource | updateResource | deleteResource => cases he
    | _ => rfl
  exact changes_snoc ih (takesEffect_of_reads hreads)

theorem World.does_unchanged {faults : Faults} {order : RowOrder} {w w' : World} {e : Event actions}
    (h : World.does faults order e.op w e.result w') (he : takesEffect e = false) :
    w'.resources = w.resources := by
  obtain ⟨a, r⟩ := e
  cases a with
  | insertResource u title content isFile =>
    cases r with
    | ok _ => cases he
    | error f =>
      obtain ⟨-, rfl⟩ := Faults.of_error h
      rfl
  | updateResource title content u i =>
    rcases r with f | _ | n
    · obtain ⟨-, rfl⟩ := Faults.of_error h
      rfl
    · obtain ⟨hnone, rfl⟩ := Faults.of_ok h
      exact congrArg World.resources (World.updateRows_eq_self (List.eq_nil_of_length_eq_zero hnone.symm))
    · cases he
  | deleteResource i u =>
    rcases r with f | _ | n
    · obtain ⟨-, rfl⟩ := Faults.of_error h
      rfl
    · obtain ⟨hnone, rfl⟩ := Faults.of_ok h
      exact congrArg World.resources (World.deleteRows_eq_self (List.eq_nil_of_length_eq_zero hnone.symm))
    · cases he
  | _ => exact World.does_resources h rfl

/-- What a statement that takes effect makes of the table. -/
inductive Alters : Table Row Row.id → Action → Table Row Row.id → Prop where
  | insert {t : Table Row Row.id} {id u : ℤ} {title content : Bytes} {isFile : Bool} (hnext : t.nextId ≤ id)
      (hpos : 0 < id) (hmax : id ≤ intMax) :
      Alters t (.insertResource u title content isFile)
        (t.insert ⟨id, u, title, content, isFile⟩ hnext hpos hmax)
  | update {t : Table Row Row.id} {title content : Bytes} {u i : ℤ} (hfound : t.select (·.isAt u i) ≠ []) :
      Alters t (.updateResource title content u i)
        (t.modify (·.isAt u i) (fun r => { r with title := title, content := content }) fun _ => rfl)
  | delete {t : Table Row Row.id} {u i : ℤ} (hfound : t.select (·.isAt u i) ≠ []) :
      Alters t (.deleteResource i u) (t.remove (·.isAt u i))

theorem World.does_alters {faults : Faults} {order : RowOrder} {w w' : World} {e : Event actions}
    (h : World.does faults order e.op w e.result w') (he : takesEffect e = true) :
    Alters w.resources e.op w'.resources := by
  obtain ⟨a, r⟩ := e
  cases a with
  | insertResource u title content isFile =>
    cases r with
    | error f => cases he
    | ok _ =>
      obtain ⟨-, id, hnext, hpos, hmax, rfl⟩ | ⟨-, ⟨f, hf⟩, -⟩ := h
      · exact .insert hnext hpos hmax
      · cases hf
  | updateResource title content u i =>
    rcases r with f | _ | n
    · cases he
    · cases he
    · obtain ⟨hcount, rfl⟩ := Faults.of_ok h
      exact .update (List.ne_nil_of_length_eq_add_one hcount.symm)
  | deleteResource i u =>
    rcases r with f | _ | n
    · cases he
    · cases he
    · obtain ⟨hcount, rfl⟩ := Faults.of_ok h
      exact .delete (List.ne_nil_of_length_eq_add_one hcount.symm)
  | _ => cases he

/-- The texts that report a change. -/
def statusTexts : List Bytes := [ascii "created", ascii "updated", ascii "deleted"]

/-- The answer tells what has changed. -/
structure Tells (q : ServiceQuery) (answer : Json) (past : History) : Prop where
  changes : changes past = if answer.error? = none then q.statement.toList else []
  status : q.statement ≠ none → answer.error? = none → ∃ text ∈ statusTexts, answer = .status text

variable {P : Platform}

theorem tells_of_error {q : ServiceQuery} {past : History} (hpast : changes past = []) (m : Bytes) :
    Tells q (.error m) past where
  changes := by
    rw [Json.error?_error, hpast]
    rfl
  status _ herror := by
    rw [Json.error?_error] at herror
    cases herror

theorem tells_of_status {q : ServiceQuery} {past : History} {a : Action} (hpast : changes past = [a])
    (hq : q.statement = some a) {text : Bytes} (htext : text ∈ statusTexts) : Tells q (.status text) past where
  changes := by
    rw [hpast, hq]
    rfl
  status _ _ := ⟨text, htext, rfl⟩

theorem tells_error {q : ServiceQuery} {d : Dao} {text : Bytes} {past : History} (hpast : changes past = []) :
    (readMsg d >>= fun m => return Json.error m).Traces (Guard P q) (Tells q) (past ++ [assigned d text]) := by
  have hlast : lastWritten d (past ++ [assigned d text]) = some text := by
    rw [lastWritten_snoc]
    simp [assigned, Action.written]
  refine Prog.traces_bind.mpr (readMsg_traces (congrArg Option.isSome hlast) fun m => ?_)
  exact tells_of_error (changes_snoc (changes_snoc hpast rfl) rfl) m

theorem createResource_tells (info : ResourceInfo) :
    (ResourceService.createResource info).Traces (Guard P (.createResource info))
      (Tells (.createResource info)) [] := by
  refine Prog.traces_bind.mpr (createResource_dao rfl ?_ fun f text _ => ?_)
  · exact ⟨⟨.list info.userId, rfl, rfl⟩, fun ok => tells_of_status rfl rfl (by simp [statusTexts])⟩
  · exact tells_error rfl

theorem updateResource_tells (info : ResourceInfo) :
    (ResourceService.updateResource info).Traces (Guard P (.updateResource info))
      (Tells (.updateResource info)) [] := by
  refine Prog.traces_bind.mpr (updateResource_dao rfl (fun n => ?_) fun result text hresult _ => ?_)
  · exact ⟨⟨.resource info.userId info.id, rfl, rfl⟩, fun _ => ⟨⟨.list info.userId, rfl, rfl⟩,
      fun _ => tells_of_status rfl rfl (by simp [statusTexts])⟩⟩
  · refine tells_error ?_
    rcases result with f | _ | n
    · rfl
    · rfl
    · exact absurd rfl (hresult n)

theorem deleteRow_tells {u i : ℤ} {past : History} (hpast : changes past = []) :
    (ResourceService.deleteRow u i).Traces (Guard P (.deleteResource u i))
      (Tells (.deleteResource u i)) past := by
  refine Prog.traces_bind.mpr (deleteResource_dao rfl (fun n => ?_) fun result text hresult _ => ?_)
  · refine Prog.traces_bind.mpr (invalidate_traces (k := .resource u i) rfl fun _ =>
      Prog.traces_bind.mpr (invalidate_traces (k := .list u) rfl fun _ => ?_))
    have hdeleted := changes_effect (e := ⟨.deleteResource i u, Except.ok (n + 1)⟩)
      (changes_snoc (e := cleared .resource) hpast rfl) rfl
    exact tells_of_status (changes_snoc (changes_snoc hdeleted rfl) rfl) rfl (by simp [statusTexts])
  · refine tells_error (changes_snoc (changes_snoc hpast rfl) ?_)
    rcases result with f | _ | n
    · rfl
    · rfl
    · exact absurd rfl (hresult n)

theorem deleteResource_tells (u i : ℤ) :
    (ResourceService.deleteResource P u i).Traces (Guard P (.deleteResource u i))
      (Tells (.deleteResource u i)) [] := by
  refine Prog.traces_bind.mpr (getResource_dao rfl (fun r => ?_) fun result text _ => tells_error rfl)
  dsimp only
  split_ifs with hfile
  · refine Prog.traces_bind.mpr (deleteFile_traces rfl (by simp) hfile fun result tail htail _ => ?_)
    have hpast : changes ([] ++ [cleared .resource] ++ [⟨.selectResource u i, Except.ok (some r)⟩] ++ tail) = [] :=
      changes_storage htail
    cases result with
    | error m => exact tells_of_error hpast m
    | ok _ => exact deleteRow_tells hpast
  · exact deleteRow_tells rfl

theorem writesRows_of_statement {q : ServiceQuery} (hq : q.statement = none) {a : Action} {past : History}
    (hguard : Guard P q a past) : a.writesRows = false := by
  cases a with
  | insertResource =>
    obtain ⟨info, rfl, -⟩ := hguard
    cases hq
  | updateResource =>
    obtain ⟨info, rfl, -⟩ := hguard
    cases hq
  | deleteResource =>
    obtain rfl := hguard
    cases hq
  | _ => rfl

theorem reads_tell {q : ServiceQuery} (hq : q.statement = none) :
    (serve P q).Traces (Guard P q) (Tells q) [] := by
  refine (serve_traces P q).track (I := fun past => changes past = []) ?_ ?_ rfl
  · intro a r past hguard hpast
    exact changes_snoc hpast (takesEffect_of_reads (writesRows_of_statement hq hguard))
  · intro answer past _ hpast
    refine ⟨?_, fun hsome => absurd hq hsome⟩
    rw [hpast, hq]
    simp

theorem serve_tells (P : Platform) (q : ServiceQuery) : (serve P q).Traces (Guard P q) (Tells q) [] := by
  cases q with
  | createResource info => exact createResource_tells info
  | updateResource info => exact updateResource_tells info
  | deleteResource u i => exact deleteResource_tells u i
  | _ => exact reads_tell rfl

end Service
end ResourceServer
