import ResourceServer.Service.Isolation

/-!
# Interleaved calls

Calls of any number of workers and server processes, action by action, on one database
and one Redis. A read stores rows that it selected some steps earlier, so the cache stays
coherent as long as those rows are still current or an invalidation is still to come.
-/

namespace ResourceServer
namespace Service

open CString

variable {P : Platform} {faults : Faults} {order : RowOrder} {ι : Type} [DecidableEq ι]

/-- The actions of several processes: each has its own messages, so what a message holds
is left open. -/
def World.doesShared (faults : Faults) (order : RowOrder) : Env actions World
  | .readMsg _, w, _, w' => w' = w
  | a, w, r, w' => World.does faults order a w r w'

/-- Seen from one action, messages aside, other processes make no difference. -/
theorem World.does_of_doesShared {a : Action} {w w' : World} {r : a.Ret}
    (h : World.doesShared faults order a w r w') :
    World.does faults order a w r w' ∨ ∃ d, a = .readMsg d ∧ w' = w := by
  cases a with
  | readMsg d => exact Or.inr ⟨d, rfl, h⟩
  | _ => exact Or.inl h

theorem World.Shows.step_shared {lib : JsonLib} {a : Action} {w w' : World} {r : a.Ret} {k : CacheKey}
    {text : Bytes} (h : w.Shows lib order k text) (hdoes : World.doesShared faults order a w r w')
    (hchange : ¬ Changes k ⟨a, r⟩) : w'.Shows lib order k text := by
  rcases World.does_of_doesShared hdoes with hdoes | ⟨d, rfl, rfl⟩
  · exact h.step hdoes hchange
  · exact h

abbrev CallPool (ι : Type) := Pool actions World Json ι

abbrev Trace (ι : Type) := List (ι × Event actions)

/-- The `SELECT` of a read of `k`. -/
def Loads : CacheKey → Event actions → Prop
  | .resource u i, e => e.op = .selectResource u i
  | .list u, e => e.op = .selectResources u

theorem loads_of_selected {k : CacheKey} {e : Event actions} {j : Json} (h : Selected [e] k j) : Loads k e := by
  cases k with
  | resource u i =>
    obtain ⟨r, hmem, -⟩ := h
    cases List.mem_singleton.mp hmem
    rfl
  | list u =>
    obtain ⟨rs, hmem, -⟩ := h
    cases List.mem_singleton.mp hmem
    rfl

/-- One call changes rows under `k` and, behind that, deletes the entry. -/
def Passes (k : CacheKey) (trace : Trace ι) : Prop :=
  ∃ j change ok, Changes k change ∧
    List.Sublist [(j, change), (j, (⟨.redisDel k.text, ok⟩ : Event actions))] trace

/-- Between the `SELECT` of a read and its `SETEX`, no call both changes rows of the key and deletes
the entry. -/
def Unpassed (trace : Trace ι) : Prop :=
  ∀ before i e after, trace = before ++ (i, e) :: after →
    ∀ (k : CacheKey) ttl text, e.op = .redisSetex k.text ttl text →
      ∀ first load between, before = first ++ (i, load) :: between → Loads k load → ¬ Passes k between

namespace Passes

variable {k : CacheKey} {trace : Trace ι}

omit [DecidableEq ι] in
theorem not_nil : ¬ Passes k ([] : Trace ι) := fun ⟨_, _, _, _, hsub⟩ => (nomatch hsub)

omit [DecidableEq ι] in
/-- The last event completes a pass only as a `DEL`. -/
theorem of_snoc {l : ι × Event actions} (h : Passes k (trace ++ [l])) (hl : l.2.op ≠ .redisDel k.text) :
    Passes k trace := by
  obtain ⟨j, change, ok, hchange, hsub⟩ := h
  refine ⟨j, change, ok, hchange, ?_⟩
  obtain ⟨l₁, l₂, heq, h₁, h₂⟩ := List.sublist_append_iff.mp hsub
  rcases List.sublist_singleton.mp h₂ with rfl | rfl
  · rw [List.append_nil] at heq
    rwa [heq]
  · have hlast := congrArg List.getLast? heq
    rw [List.getLast?_append] at hlast
    simp only [List.getLast?_singleton, List.getLast?_cons_cons, Option.some_or, Option.some.injEq] at hlast
    exact absurd (congrArg (fun l => l.2.op) hlast.symm) hl

omit [DecidableEq ι] in
theorem exists_del (h : Passes k trace) : ∃ l ∈ trace, l.2.op = .redisDel k.text := by
  obtain ⟨j, change, ok, -, hsub⟩ := h
  exact ⟨_, hsub.subset (List.mem_cons_of_mem _ List.mem_cons_self), rfl⟩

theorem of_settled (first : Trace ι) {last : Trace ι} {j : ι} {change : Event actions}
    (hmem : (j, change) ∈ last) (hchange : Changes k change)
    (hsettled : ¬ Owes (Pool.pastIn (first ++ last) j) k) : Passes k last := by
  obtain ⟨before, after, rfl⟩ := List.append_of_mem hmem
  by_contra hpasses
  refine hsettled ⟨Pool.pastIn (first ++ before) j, change, Pool.pastIn after j, ?_, hchange,
    fun e he hdel => ?_⟩
  · rw [← List.append_assoc, Pool.pastIn_append]
    simp [Pool.pastIn]
  · obtain ⟨op, ok⟩ := e
    cases hdel
    refine hpasses ⟨j, change, ok, hchange, ?_⟩
    have hdeleted : List.Sublist [(j, (⟨.redisDel k.text, ok⟩ : Event actions))] after :=
      List.singleton_sublist.mpr (Pool.mem_pastIn.mp he)
    exact (hdeleted.cons_cons _).trans (List.sublist_append_right _ _)

end Passes

omit [DecidableEq ι] in
/-- Where every `SETEX` lies before every `DEL`, no read is passed. -/
theorem unpassed_of_split {fills dels : Trace ι} (hfills : ∀ l ∈ fills, ∀ key, l.2.op ≠ .redisDel key)
    (hdels : ∀ l ∈ dels, ∀ key ttl text, l.2.op ≠ .redisSetex key ttl text) : Unpassed (fills ++ dels) := by
  intro before i e after htrace k ttl text hop first load between hbefore _ hpasses
  obtain ⟨l, hl, hdel⟩ := hpasses.exists_del
  have hmem : l ∈ before := hbefore ▸ List.mem_append_right _ (List.mem_cons_of_mem _ hl)
  rcases List.append_eq_append_iff.mp htrace with ⟨rest, -, hrest⟩ | ⟨rest, hrest, -⟩
  · exact hdels (i, e) (hrest ▸ List.mem_append_right _ List.mem_cons_self) _ _ _ hop
  · exact hfills l (hrest ▸ List.mem_append_left _ hmem) _ hdel

namespace CallPool

/-- The calls of `query` before their first action. -/
def start (P : Platform) (query : ι → ServiceQuery) (w : World) : CallPool ι :=
  Pool.start w fun i => serve P (query i)

/-- Some call changed rows under `k` and has yet to delete the entry. -/
def Owing (pool : CallPool ι) (k : CacheKey) : Prop := ∃ i, Owes (pool.threads i).past k

section Run

variable (P faults order) (query : ι → ServiceQuery) (w : World)

/-- Runs of the calls of any number of processes. -/
abbrev Calls (pool : CallPool ι) (trace : Trace ι) (pool' : CallPool ι) : Prop :=
  Path (Pool.Step (World.doesShared faults order)) pool trace pool'

/-- At some moment of the run to `pool` the rows under `k` were those of `text`, and no call has
passed since. -/
def ShownUnpassed (k : CacheKey) (text : Bytes) (trace : Trace ι) (pool : CallPool ι) : Prop :=
  ∃ before behind moment, trace = before ++ behind ∧ Calls faults order (start P query w) before moment ∧
    Calls faults order moment behind pool ∧ moment.shared.Shows P.json order k text ∧ ¬ Passes k behind

/-- In the middle of the calls: where each entry, each entry found and each row selected comes from. -/
structure Sound (trace : Trace ι) (pool : CallPool ι) : Prop where
  loads : ∀ i u f, (⟨.selectResources u, Except.error f⟩ : Event actions) ∉ (pool.threads i).past
  entries : ∀ key text, pool.shared.cache key = some text → ∃ k : CacheKey, key = k.text ∧
    ShownUnpassed P faults order query w k text trace pool
  selected : ∀ i k j, Selected (pool.threads i).past k j → ∃ before load between moment,
    trace = before ++ (i, load) :: between ∧ Loads k load ∧
      Calls faults order (start P query w) (before ++ [(i, load)]) moment ∧
        Calls faults order moment between pool ∧ moment.shared.direct order k = some j
  hits : ∀ i (k : CacheKey) text, ⟨.redisGet k.text, some text⟩ ∈ (pool.threads i).past →
    ∃ before behind moment, trace = before ++ (i, ⟨.redisGet k.text, some text⟩) :: behind ∧
      ShownUnpassed P faults order query w k text before moment ∧
        Calls faults order moment ((i, ⟨.redisGet k.text, some text⟩) :: behind) pool

/-- The answer of read `i` shows the rows of some moment of the run, which no call that had finished
before the first step of the read has changed since. -/
def Recent (trace : Trace ι) (pool : CallPool ι) (i : ι) (k : CacheKey) (answer : Json) : Prop :=
  ∃ before behind moment, trace = before ++ behind ∧ Calls faults order (start P query w) before moment ∧
    Calls faults order moment behind pool ∧ moment.shared.direct order k = some answer ∧
      ∀ pre post early, trace = pre ++ post → Calls faults order (start P query w) pre early →
        Calls faults order early post pool → (∀ e, (i, e) ∉ pre) →
          ∀ j a, (early.threads j).prog = .ret a → ∀ change, Changes k change → (j, change) ∉ behind

end Run

variable {query : ι → ServiceQuery} {w : World} {trace : Trace ι} {pool pool' : CallPool ι} {i : ι}
  {k : CacheKey}

theorem keeps_of_calls (hcalls : Calls faults order (start P query w) trace pool) :
    pool.Keeps (fun i => Guard P (query i)) fun i => Promise P (query i) :=
  Pool.Keeps.path (fun i => serve_traces P (query i)) hcalls

theorem past_of_calls (hcalls : Calls faults order (start P query w) trace pool) (i : ι) :
    (pool.threads i).past = Pool.pastIn trace i :=
  Pool.past_of_path hcalls i

theorem ShownUnpassed.step {text : Bytes} {l : ι × Event actions}
    (h : ShownUnpassed P faults order query w k text trace pool)
    (hstep : Pool.Step (World.doesShared faults order) pool l pool') (hl : l.2.op ≠ .redisDel k.text) :
    ShownUnpassed P faults order query w k text (trace ++ [l]) pool' := by
  obtain ⟨before, behind, moment, rfl, hbefore, hbehind, hshows, hpass⟩ := h
  exact ⟨before, behind ++ [l], moment, List.append_assoc .., hbefore, hbehind.snoc hstep, hshows,
    fun h => hpass (h.of_snoc hl)⟩

/-- A `SELECT` leaves the rows that it returns. -/
theorem direct_behind_selected {a : Action} {r : a.Ret} {w w' : World} {j : Json}
    (hdoes : World.doesShared faults order a w r w') (h : Selected [⟨a, r⟩] k j) :
    w'.direct order k = some j := by
  have hload := loads_of_selected h
  rcases World.does_of_doesShared hdoes with hdoes | ⟨d, rfl, rfl⟩
  · have hrows : w'.resources = w.resources := by
      apply World.does_resources hdoes
      cases k <;> cases hload <;> rfl
    rw [direct_of_resources hrows]
    exact direct_of_selected hdoes h
  · cases k <;> cases hload

theorem Sound.step {e : Event actions} (hredis : ¬ faults.redis) (hdatabase : ¬ faults.database)
    (hcalls : Calls faults order (start P query w) trace pool)
    (h : Sound P faults order query w trace pool)
    (hordered : ∀ (k : CacheKey) ttl text, e.op = .redisSetex k.text ttl text →
      ∀ first load between, trace = first ++ (i, load) :: between → Loads k load → ¬ Passes k between)
    (hstep : Pool.Step (World.doesShared faults order) pool (i, e) pool') :
    Sound P faults order query w (trace ++ [(i, e)]) pool' := by
  obtain ⟨hdoes, hpast, hothers⟩ := hstep.spec
  obtain ⟨hguard, -⟩ := (keeps_of_calls hcalls).step hstep
  -- an event of a history is an old one, or that of the step
  have hnew {j : ι} {e' : Event actions} (hmem : e' ∈ (pool'.threads j).past) :
      e' ∈ (pool.threads j).past ∨ j = i ∧ e' = e := by
    by_cases hij : j = i
    · subst hij
      rw [hpast] at hmem
      exact (List.mem_append.mp hmem).imp_right fun hmem => ⟨rfl, List.mem_singleton.mp hmem⟩
    · rw [hothers j hij] at hmem
      exact Or.inl hmem
  constructor
  case loads =>
    intro j u f hmem
    rcases hnew hmem with hold | ⟨rfl, rfl⟩
    · exact h.loads j u f hold
    · obtain ⟨hr, -⟩ | ⟨hfault, -⟩ := hdoes
      · cases hr
      · exact hdatabase hfault
  case entries =>
    intro key text hentry
    have hkept (hold : pool.shared.cache key = some text) (hdel : e.op ≠ .redisDel key) :
        ∃ k : CacheKey, key = k.text ∧
          ShownUnpassed P faults order query w k text (trace ++ [(i, e)]) pool' := by
      obtain ⟨k, rfl, hshown⟩ := h.entries key text hold
      exact ⟨k, rfl, hshown.step hstep hdel⟩
    rcases World.does_of_doesShared hdoes with hdoes | ⟨d, hop, hsame⟩
    · rcases World.does_cache hredis hdoes hentry with ⟨hold, hdel⟩ | ⟨ttl, hop⟩
      · exact hkept hold hdel
      · rw [hop] at hguard
        obtain ⟨k, rfl, -, hfill⟩ := hguard
        obtain ⟨j, hj, hdump⟩ := hfill (Or.inr (h.loads i))
        obtain ⟨before, load, between, moment, rfl, hload, hbefore, hbetween, hdirect⟩ :=
          h.selected i k j hj
        refine ⟨k, rfl, before ++ [(i, load)], between ++ [(i, e)], moment, by simp, hbefore,
          hbetween.snoc hstep, ⟨j, hdirect, hdump⟩, fun hpasses => ?_⟩
        refine hordered k ttl text hop before load between rfl hload (hpasses.of_snoc ?_)
        rw [hop]
        nofun
    · refine hkept (hsame ▸ hentry) ?_
      rw [hop]
      nofun
  case selected =>
    intro j k v hv
    have hkept (hold : Selected (pool.threads j).past k v) : ∃ before load between moment,
        trace ++ [(i, e)] = before ++ (j, load) :: between ∧ Loads k load ∧
          Calls faults order (start P query w) (before ++ [(j, load)]) moment ∧
            Calls faults order moment between pool' ∧ moment.shared.direct order k = some v := by
      obtain ⟨before, load, between, moment, rfl, hload, hbefore, hbetween, hdirect⟩ :=
        h.selected j k v hold
      exact ⟨before, load, between ++ [(i, e)], moment, by simp, hload, hbefore, hbetween.snoc hstep,
        hdirect⟩
    by_cases hij : j = i
    · subst hij
      rw [hpast] at hv
      rcases selected_snoc hv with hold | hlast
      · exact hkept hold
      · exact ⟨trace, e, [], pool', rfl, loads_of_selected hlast, hcalls.snoc hstep, .nil _,
          direct_behind_selected hdoes hlast⟩
    · exact hkept (hothers j hij ▸ hv)
  case hits =>
    intro j k text hmem
    rcases hnew hmem with hold | ⟨rfl, rfl⟩
    · obtain ⟨before, behind, moment, rfl, hshown, hrest⟩ := h.hits j k text hold
      exact ⟨before, behind ++ [(i, e)], moment, by simp, hshown, hrest.snoc hstep⟩
    · obtain ⟨-, hcached | ⟨-, hnone⟩⟩ := hdoes
      · obtain ⟨k', hkey, hshown⟩ := h.entries k.text text hcached.symm
        obtain rfl := CacheKey.text_injective hkey
        exact ⟨trace, [], pool, rfl, hshown, .cons hstep (.nil _)⟩
      · cases hnone

omit [DecidableEq ι] in
theorem sound_start [DecidableEq ι] (hw : w.Coherent P.json order fun _ => False) :
    Sound P faults order query w [] (start P query w) where
  loads _ _ _ hmem := nomatch hmem
  entries key text hentry := by
    obtain ⟨k, hkey, hfalse | hshows⟩ := hw key text hentry
    · exact hfalse.elim
    · exact ⟨k, hkey, [], [], start P query w, rfl, .nil _, .nil _, hshows, Passes.not_nil⟩
  selected _ k j hj := absurd hj (not_selected_nil k j)
  hits _ _ _ hmem := nomatch hmem

theorem sound_of_calls (hredis : ¬ faults.redis) (hdatabase : ¬ faults.database)
    (hw : w.Coherent P.json order fun _ => False)
    (hcalls : Calls faults order (start P query w) trace pool) (hordered : Unpassed trace) :
    Sound P faults order query w trace pool :=
  hcalls.invariant (I := Sound P faults order query w)
    (fun before l after htrace => hordered before l.1 l.2 after htrace)
    (fun _ _ _ _ hbefore h hl hstep => h.step hredis hdatabase hbefore hl hstep) (sound_start hw)

theorem shows_of_calls {text : Bytes} (hcalls : Calls faults order pool trace pool')
    (hkept : ∀ l ∈ trace, ¬ Changes k l.2) (hshows : pool.shared.Shows P.json order k text) :
    pool'.shared.Shows P.json order k text := by
  induction hcalls with
  | nil => exact hshows
  | cons hstep _ ih =>
    obtain ⟨hdoes, -⟩ := hstep.spec
    exact ih (fun l hl => hkept l (List.mem_cons_of_mem _ hl))
      (hshows.step_shared hdoes (hkept _ List.mem_cons_self))

/-- An entry that does not show its rows is that of a call that still owes its `DEL`. -/
theorem Sound.coherent (h : Sound P faults order query w trace pool)
    (hcalls : Calls faults order (start P query w) trace pool) :
    pool.shared.Coherent P.json order pool.Owing := by
  intro key text hentry
  obtain ⟨k, hkey, before, behind, moment, rfl, -, hbehind, hshows, hpass⟩ := h.entries key text hentry
  refine ⟨k, hkey, ?_⟩
  by_cases hchanged : ∃ l ∈ behind, Changes k l.2
  · obtain ⟨⟨j, change⟩, hmem, hchange⟩ := hchanged
    refine Or.inl ⟨j, ?_⟩
    by_contra hsettled
    rw [past_of_calls hcalls] at hsettled
    exact hpass (.of_settled before hmem hchange hsettled)
  · exact Or.inr (shows_of_calls hbehind (fun l hl hchange => hchanged ⟨l, hl, hchange⟩) hshows)

theorem settled_of_ret (hcalls : Calls faults order (start P query w) trace pool) {a : Json}
    (hret : (pool.threads i).prog = .ret a) : ¬ Owes (Pool.pastIn trace i) k := by
  rw [← past_of_calls hcalls]
  exact ((keeps_of_calls hcalls).answer hret).settled k

/-- The part of a trace before an event that is not in a prefix of it goes on from that prefix. -/
theorem exists_of_not_mem {δ : Type} {pre post front back : List δ} {x : δ}
    (h : pre ++ post = front ++ x :: back) (hx : x ∉ pre) :
    ∃ rest, front = pre ++ rest ∧ post = rest ++ x :: back := by
  rcases List.append_eq_append_iff.mp h with ⟨rest, hfront, hpost⟩ | ⟨rest, hpre, hback⟩
  · exact ⟨rest, hfront, hpost⟩
  · cases rest with
    | nil => exact ⟨[], by simpa using hpre.symm, by simpa using hback.symm⟩
    | cons y rest =>
      cases hback
      exact absurd (hpre ▸ List.mem_append_right _ List.mem_cons_self) hx

/-- **Recent answers.** -/
theorem Sound.recent (h : Sound P faults order query w trace pool)
    (hcalls : Calls faults order (start P query w) trace pool) (hlib : RoundTrips P.json)
    (hquery : query i = k.query) {answer : Json} (hret : (pool.threads i).prog = .ret answer)
    (hanswer : answer.error? = none) : Recent P faults order query w trace pool i k answer := by
  have hpromise := (keeps_of_calls hcalls).answer hret
  rcases hpromise.shown (Or.inr (h.loads i)) k hquery hanswer with ⟨text, hmem, hparse⟩ | hselected
  · obtain ⟨before, behind, moment, rfl, hshown, hrest⟩ := h.hits i k text hmem
    obtain ⟨first, between, shown, rfl, hfirst, hbetween, hshows, hpass⟩ := hshown
    refine ⟨first, between ++ (i, ⟨.redisGet k.text, some text⟩) :: behind, shown,
      List.append_assoc .., hfirst, hbetween.append hrest, hshows.parse hlib hparse, ?_⟩
    intro pre post early htrace hpre hpost hbefore j a hj change hchange hlast
    obtain ⟨rest, hfront, rfl⟩ := exists_of_not_mem htrace.symm (hbefore _)
    have hnone := Pool.not_mem_of_ret hpost hj
    have hin : (j, change) ∈ between :=
      (List.mem_append.mp hlast).resolve_right fun hmem => hnone change (List.mem_append_right _ hmem)
    refine hpass (.of_settled first hin hchange ?_)
    have hrest : Pool.pastIn rest j = [] := List.eq_nil_iff_forall_not_mem.mpr fun e he =>
      hnone e (List.mem_append_left _ (Pool.mem_pastIn.mp he))
    rw [hfront, Pool.pastIn_append, hrest, List.append_nil]
    exact settled_of_ret hpre hj
  · obtain ⟨before, load, between, moment, rfl, -, hbefore, hbetween, hdirect⟩ :=
      h.selected i k answer hselected
    refine ⟨before ++ [(i, load)], between, moment, by simp, hbefore, hbetween, hdirect, ?_⟩
    intro pre post early htrace _ hpost hfresh j a hj change _ hlast
    obtain ⟨rest, -, rfl⟩ := exists_of_not_mem htrace.symm (hfresh load)
    exact Pool.not_mem_of_ret hpost hj change
      (List.mem_append_right _ (List.mem_cons_of_mem _ hlast))

/-- **Interleaved calls.** In every run in which no call both changes rows of a key and deletes its
entry between the `SELECT` and the `SETEX` of a read of that key, an entry that does not show the
current rows will be deleted by a call that runs; every read answers rows that no call finished before
it has changed; and once all calls have finished, every entry shows the current rows, and so does
every answer of a later read. -/
theorem coherent_interleaved (P : Platform) (faults : Faults) (order : RowOrder)
    (hredis : ¬ faults.redis) (hdatabase : ¬ faults.database) (hlib : RoundTrips P.json)
    (query : ι → ServiceQuery) (w : World) (hw : w.Coherent P.json order fun _ => False)
    (trace : Trace ι) (pool : CallPool ι)
    (hcalls : Path (Pool.Step (World.doesShared faults order)) (start P query w) trace pool)
    (hordered : Unpassed trace) :
    pool.shared.Coherent P.json order pool.Owing ∧
      (∀ i (k : CacheKey) answer, query i = k.query → (pool.threads i).prog = .ret answer →
        answer.error? = none → Recent P faults order query w trace pool i k answer) ∧
      (pool.Finished → (pool.shared.Coherent P.json order fun _ => False) ∧
        ∀ (k : CacheKey) calls answer w',
          World.Step P faults order pool.shared (.served k.query calls answer) w' →
          answer.error? = none → pool.shared.direct order k = some answer) := by
  have hsound := sound_of_calls hredis hdatabase hw hcalls hordered
  have howing := hsound.coherent hcalls
  refine ⟨howing, fun i k answer hquery hret => hsound.recent hcalls hlib hquery hret,
    fun hfinished => ?_⟩
  have hcoherent : pool.shared.Coherent P.json order fun _ => False := by
    intro key text hentry
    obtain ⟨k, hkey, ⟨i, howes⟩ | hshows⟩ := howing key text hentry
    · obtain ⟨a, ha⟩ := hfinished i
      exact absurd howes (((keeps_of_calls hcalls).answer ha).settled k)
    · exact ⟨k, hkey, Or.inr hshows⟩
  refine ⟨hcoherent, ?_⟩
  rintro k calls answer w' ⟨hexec⟩ hanswer
  exact (read_transparent hlib hcoherent hexec).2 hanswer

end CallPool

/-- One call reads the note while another updates it. -/
def readAndUpdate (updates : Bool) : ServiceQuery :=
  if updates then .updateResource ⟨1, 1, ascii "note", ascii "new", false⟩ else .getResource 1 1

/-- The read stores what it selected before the update, -/
def fillTrace : Trace Bool :=
  [(false, ⟨.redisGet (CacheKey.resource 1 1).text, none⟩), (false, ⟨.clearMsg .resource, ()⟩),
    (false, ⟨.selectResource 1 1, Except.ok (some (note (ascii "text")))⟩),
    (true, ⟨.clearMsg .resource, ()⟩),
    (true, ⟨.updateResource (ascii "note") (ascii "new") 1 1, Except.ok 1⟩),
    (false, ⟨.redisSetex (CacheKey.resource 1 1).text 300 (noteText (ascii "text")), true⟩)]

/-- and the update deletes it. -/
def delTrace : Trace Bool :=
  [(true, ⟨.redisDel (CacheKey.resource 1 1).text, true⟩),
    (true, ⟨.redisDel (CacheKey.list 1).text, true⟩)]

theorem fill_deleted : ∃ pool : CallPool Bool,
    Path (Pool.Step (World.doesShared .never ⟨id, fun _ => .refl _⟩))
      (CallPool.start notes readAndUpdate oneResource) (fillTrace ++ delTrace) pool ∧ pool.Finished ∧
    (pool.shared.Coherent notes.json ⟨id, fun _ => .refl _⟩ fun _ => False) ∧
    CallPool.Recent notes .never ⟨id, fun _ => .refl _⟩ readAndUpdate oneResource
      (fillTrace ++ delTrace) pool false (.resource 1 1) (note (ascii "text")).json := by
  have hstart : Path (Pool.Step (World.doesShared .never ⟨id, fun _ => .refl _⟩))
      (CallPool.start notes readAndUpdate oneResource) []
      (CallPool.start notes readAndUpdate oneResource) := .nil _
  have hread := Pool.path_act (Pool.path_act (Pool.path_act hstart
    false ⟨.redisGet (CacheKey.resource 1 1).text, none⟩ rfl ⟨rfl, Or.inl rfl⟩)
    false ⟨.clearMsg .resource, ()⟩ rfl rfl)
    false ⟨.selectResource 1 1, Except.ok (some (note (ascii "text")))⟩ rfl (Or.inl ⟨rfl, rfl⟩)
  have hfill := Pool.path_act (Pool.path_act (Pool.path_act hread
    true ⟨.clearMsg .resource, ()⟩ rfl rfl)
    true ⟨.updateResource (ascii "note") (ascii "new") 1 1, Except.ok 1⟩ rfl (Or.inl ⟨rfl, rfl⟩))
    false ⟨.redisSetex (CacheKey.resource 1 1).text 300 (noteText (ascii "text")), true⟩ rfl
      (Or.inl ⟨rfl, rfl⟩)
  have hpath := Pool.path_act (Pool.path_act hfill
    true ⟨.redisDel (CacheKey.resource 1 1).text, true⟩ rfl (Or.inl ⟨rfl, rfl⟩))
    true ⟨.redisDel (CacheKey.list 1).text, true⟩ rfl (Or.inl ⟨rfl, rfl⟩)
  have hempty : oneResource.cache = fun _ => none := Function.update_eq_self _ _
  have hordered : Unpassed (fillTrace ++ delTrace) := by
    apply unpassed_of_split
    · simp [fillTrace]
    · simp [delTrace]
  obtain ⟨-, hrecent, hlast⟩ := CallPool.coherent_interleaved notes .never ⟨id, fun _ => .refl _⟩ id id
    notes_roundTrips readAndUpdate oneResource
    (fun key text hentry => by rw [hempty] at hentry; cases hentry) _ _ hpath hordered
  refine ⟨_, hpath, ?_⟩
  suffices hfinished : Pool.Finished _ from
    ⟨hfinished, (hlast hfinished).1, hrecent false (.resource 1 1) _ rfl rfl rfl⟩
  rintro (_ | _) <;> exact ⟨_, rfl⟩

/-- The read has stored what it selected before the update. -/
def staleWorld : World :=
  (((((oneResource.setMsg .resource []).setMsg .resource []).updateRows (ascii "note") (ascii "new")
    1 1).evict (CacheKey.resource 1 1).text).evict (CacheKey.list 1).text).store
      (CacheKey.resource 1 1).text (noteText (ascii "text"))

theorem stale_after_update : ∃ pool : CallPool Bool,
    Reaches (Pool.Step (World.does .never ⟨id, fun _ => .refl _⟩))
      (CallPool.start notes readAndUpdate oneResource) pool ∧ pool.Finished ∧
    pool.shared = staleWorld ∧
    (¬ staleWorld.Coherent notes.json ⟨id, fun _ => .refl _⟩ fun _ => False) ∧
    staleWorld.direct ⟨id, fun _ => .refl _⟩ (.resource 1 1) = some (note (ascii "new")).json ∧
    ∃ calls, World.Step notes .never ⟨id, fun _ => .refl _⟩ staleWorld
      (.served (.getResource 1 1) calls (note (ascii "text")).json) staleWorld := by
  have hstart : Reaches (Pool.Step (World.does .never ⟨id, fun _ => .refl _⟩))
      (CallPool.start notes readAndUpdate oneResource)
      (CallPool.start notes readAndUpdate oneResource) := .refl
  have hread := Pool.runs_act (Pool.runs_act (Pool.runs_act hstart
    false ⟨.redisGet (CacheKey.resource 1 1).text, none⟩ rfl ⟨rfl, Or.inl rfl⟩ trivial)
    false ⟨.clearMsg .resource, ()⟩ rfl rfl trivial)
    false ⟨.selectResource 1 1, Except.ok (some (note (ascii "text")))⟩ rfl (Or.inl ⟨rfl, rfl⟩) trivial
  have hupdate := Pool.runs_act (Pool.runs_act (Pool.runs_act (Pool.runs_act hread
    true ⟨.clearMsg .resource, ()⟩ rfl rfl trivial)
    true ⟨.updateResource (ascii "note") (ascii "new") 1 1, Except.ok 1⟩ rfl (Or.inl ⟨rfl, rfl⟩) trivial)
    true ⟨.redisDel (CacheKey.resource 1 1).text, true⟩ rfl (Or.inl ⟨rfl, rfl⟩) trivial)
    true ⟨.redisDel (CacheKey.list 1).text, true⟩ rfl (Or.inl ⟨rfl, rfl⟩) trivial
  have hfill := Pool.runs_act hupdate
    false ⟨.redisSetex (CacheKey.resource 1 1).text 300 (noteText (ascii "text")), true⟩
    rfl (Or.inl ⟨rfl, rfl⟩) trivial
  have hentry : staleWorld.cache (CacheKey.resource 1 1).text = some (noteText (ascii "text")) := by
    simp [staleWorld, World.store]
  refine ⟨_, hfill, ?_, rfl, ?_, rfl, ?_⟩
  · rintro (_ | _) <;> exact ⟨_, rfl⟩
  · intro hcoherent
    obtain ⟨k, hkey, hfalse | ⟨j, hj, hdump⟩⟩ := hcoherent _ _ hentry
    · exact hfalse
    · obtain rfl := CacheKey.text_injective hkey
      cases hj
      exact absurd (Option.some.inj hdump) (by decide)
  · exact ⟨_, .served (.call ⟨rfl, Or.inl hentry.symm⟩ (.ret _ _))⟩

end Service
end ResourceServer
