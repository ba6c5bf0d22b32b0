import ResourceServer.Service.World

/-!
# Histories of a service call

What can be read off the events of one call: the message it wrote last, whether the
messages it read were its own, the rows its `SELECT` returned, and the invalidations it
still owes.
-/

namespace ResourceServer
namespace Service

abbrev History := List (Event actions)

/-- The text an action writes to the message of `d`. -/
def Action.written (d : Dao) : Action → Option Bytes
  | .clearMsg d' => if d' = d then some [] else none
  | .assignMsg d' text => if d' = d then some text else none
  | _ => none

def lastWritten (d : Dao) (past : History) : Option Bytes :=
  past.foldl (fun m e => (e.op.written d).or m) none

@[simp] theorem lastWritten_snoc (d : Dao) (past : History) (e : Event actions) :
    lastWritten d (past ++ [e]) = (e.op.written d).or (lastWritten d past) := by
  simp [lastWritten]

theorem World.does_msg {faults : Faults} {order : RowOrder} {a : Action} {w w' : World} {r : a.Ret}
    (h : World.does faults order a w r w') (d : Dao) : w'.msg d = (a.written d).getD (w.msg d) := by
  cases a with
  | clearMsg d' | assignMsg d' =>
    obtain rfl := h
    by_cases hd : d' = d
    · subst hd
      simp [Action.written, World.setMsg]
    · simp [Action.written, World.setMsg, hd, Function.update_of_ne (Ne.symm hd)]
  | _ => exact congrFun ((World.does_frame h).msg nofun) d

/-- Every message the call read is the one it had written. -/
def OwnReads (past : History) : Prop :=
  Prog.Along (fun before e => ∀ d text, e = ⟨.readMsg d, text⟩ → lastWritten d before = some text) past

theorem ownReads_snoc {past : History} {e : Event actions} :
    OwnReads (past ++ [e]) ↔
      OwnReads past ∧ ∀ d text, e = ⟨.readMsg d, text⟩ → lastWritten d past = some text :=
  Prog.along_snoc

theorem OwnReads.of_append {past tail : History} (h : OwnReads (past ++ tail)) : OwnReads past :=
  Prog.Along.of_append h

theorem OwnReads.read_eq {past : History} {d : Dao} {m text : Bytes}
    (h : OwnReads (past ++ [⟨.readMsg d, m⟩])) (hlast : lastWritten d past = some text) : m = text :=
  Option.some.inj (((ownReads_snoc.mp h).2 d m rfl).symm.trans hlast)

/-- Messages cannot mislead the call: they are its own, or no list load failed. -/
def Reliable (past : History) : Prop :=
  OwnReads past ∨ ∀ u f, (⟨.selectResources u, Except.error f⟩ : Event actions) ∉ past

/-- The query that reads a cache entry. -/
def CacheKey.query : CacheKey → ServiceQuery
  | .resource u i => .getResource u i
  | .list u => .getResources u

@[simp] theorem CacheKey.query_actingUser (k : CacheKey) : k.query.actingUser = some k.owner := by
  cases k <;> rfl

theorem CacheKey.query_injective : Function.Injective CacheKey.query := by
  intro k k' h
  cases k <;> cases k' <;> cases h <;> rfl

/-- The JSON of what the call's own `SELECT` for `k` returned. -/
def Selected (past : History) : CacheKey → Json → Prop
  | .resource u i, j =>
    ∃ r : Resource, ⟨.selectResource u i, Except.ok (some r)⟩ ∈ past ∧ j = r.json
  | .list u, j =>
    ∃ rs : List Resource, ⟨.selectResources u, Except.ok rs⟩ ∈ past ∧ j = Resource.listJson rs

/-- The answer is an entry the call found in the cache. -/
def FromCache (lib : JsonLib) (past : History) (k : CacheKey) (answer : Json) : Prop :=
  ∃ text, ⟨.redisGet k.text, some text⟩ ∈ past ∧ lib.parse text = .ok answer

/-- The content of a file row that the call selected for `u`. -/
def SelectedFile (past : History) (u : ℤ) (content : Bytes) : Prop :=
  ∃ i, ∃ r : Resource, ⟨.selectResource u i, Except.ok (some r)⟩ ∈ past ∧ r.isFile = true ∧
    r.content = content

/-- The statement changed rows shown under `k`. -/
def Changes (k : CacheKey) : Event actions → Prop
  | ⟨.insertResource u _ _ _, result⟩ => result = Except.ok () ∧ k = .list u
  | ⟨.updateResource _ _ u i, result⟩ =>
    (∃ n, result = Except.ok (n + 1)) ∧ (k = .resource u i ∨ k = .list u)
  | ⟨.deleteResource i u, result⟩ =>
    (∃ n, result = Except.ok (n + 1)) ∧ (k = .resource u i ∨ k = .list u)
  | _ => False

/-- The call changed rows shown under `k` and has not deleted the entry since. -/
def Owes (past : History) (k : CacheKey) : Prop :=
  ∃ before e after, past = before ++ e :: after ∧ Changes k e ∧ ∀ e' ∈ after, e'.op ≠ .redisDel k.text

theorem not_owes_nil (k : CacheKey) : ¬ Owes [] k := by
  rintro ⟨before, e, after, h, -⟩
  simp at h

theorem owes_snoc {past : History} {e : Event actions} {k : CacheKey} :
    Owes (past ++ [e]) k ↔ Changes k e ∨ Owes past k ∧ e.op ≠ .redisDel k.text := by
  constructor
  · rintro ⟨before, e', after, h, hchange, hdel⟩
    rcases List.eq_nil_or_concat after with rfl | ⟨after, last, rfl⟩
    · obtain ⟨-, hee⟩ := List.append_inj' h rfl
      cases hee
      exact Or.inl hchange
    · rw [List.concat_eq_append, ← List.cons_append, ← List.append_assoc] at h
      obtain ⟨rfl, hlast⟩ := List.append_inj' h rfl
      cases hlast
      simp only [List.concat_eq_append, List.mem_append, List.mem_singleton] at hdel
      exact Or.inr ⟨⟨before, e', after, rfl, hchange, fun d hd => hdel d (Or.inl hd)⟩,
        hdel e (Or.inr rfl)⟩
  · rintro (hchange | ⟨⟨before, e', after, rfl, hchange, hdel⟩, he⟩)
    · exact ⟨past, e, [], rfl, hchange, by simp⟩
    · refine ⟨before, e', after ++ [e], by simp, hchange, fun d hd => ?_⟩
      rcases List.mem_append.mp hd with hd | hd
      · exact hdel d hd
      · rw [List.mem_singleton.mp hd]
        exact he

theorem not_owes_snoc {past : History} {e : Event actions} (hpast : ∀ k, ¬ Owes past k)
    (he : ∀ k, ¬ Changes k e) : ∀ k, ¬ Owes (past ++ [e]) k := by
  intro k h
  rcases owes_snoc.mp h with hchange | ⟨howes, -⟩
  · exact he k hchange
  · exact hpast k howes

end Service
end ResourceServer
