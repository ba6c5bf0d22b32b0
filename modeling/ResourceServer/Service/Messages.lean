import ResourceServer.Service.Interleaving

/-!
# Messages shared by the workers

The calls of one process report their failures through two static strings. A call answers
by its own outcome as long as no other call writes a string between its last write and its
reads.
-/

namespace ResourceServer
namespace Service

open CString

variable {P : Platform} {faults : Faults} {order : RowOrder} {ι : Type} [DecidableEq ι]

/-- The JSON has the form of what is stored under `k`. -/
def CacheKey.Shapes : CacheKey → Json → Prop
  | .resource _ _, j => ∃ r : Resource, j = r.json
  | .list _, j => ∃ rs, j = Resource.listJson rs

theorem shapes_of_selected {past : History} {k : CacheKey} {j : Json} (h : Selected past k j) : k.Shapes j := by
  cases k with
  | resource u i =>
    obtain ⟨r, -, hr⟩ := h
    exact ⟨r, hr⟩
  | list u =>
    obtain ⟨rs, -, hrs⟩ := h
    exact ⟨rs, hrs⟩

/-- The text of a value that the services store under the key. -/
def CacheText (lib : JsonLib) (key text : Bytes) : Prop :=
  ∃ (k : CacheKey) (j : Json), key = k.text ∧ k.Shapes j ∧ CacheJson j ∧ lib.dump j = some text

theorem CacheText.error?_eq_none {lib : JsonLib} {key text : Bytes} {j : Json} (hlib : RoundTrips lib)
    (h : CacheText lib key text) (hparse : lib.parse text = .ok j) : j.error? = none := by
  obtain ⟨k, j', -, -, hj', hdump⟩ := h
  have hsame : Except.ok j = Except.ok j' := hparse.symm.trans (hlib j' hj' text hdump)
  rw [Except.ok.inj hsame]
  exact hj'.error?_eq_none

theorem CacheText.list {lib : JsonLib} {u : ℤ} {text : Bytes} {j : Json} (hlib : RoundTrips lib)
    (h : CacheText lib (CacheKey.list u).text text) (hparse : lib.parse text = .ok j) :
    ∃ rs, lib.dump (Resource.listJson rs) = some text ∧ j = Resource.listJson rs := by
  obtain ⟨k, j', hkey, hshape, hj', hdump⟩ := h
  obtain rfl := CacheKey.text_injective hkey
  have hsame : Except.ok j = Except.ok j' := hparse.symm.trans (hlib j' hj' text hdump)
  obtain ⟨rs, rfl⟩ := hshape
  exact ⟨rs, hdump, Except.ok.inj hsame⟩

/-- What a list request does with its `SELECT`: it answers and stores a list exactly if the
`SELECT` succeeded, and then the list it returned. A request without a `SELECT` answers the
list that it found under its key. -/
structure ListsOwn (lib : JsonLib) (u : ℤ) (past : History) (answer : Json) : Prop where
  source : (∃ result, ⟨.selectResources u, result⟩ ∈ past) ∨
    ∃ rs text, ⟨.redisGet (CacheKey.list u).text, some text⟩ ∈ past ∧
      lib.dump (Resource.listJson rs) = some text ∧ answer = Resource.listJson rs
  answers : ∀ result, ⟨.selectResources u, result⟩ ∈ past →
    ((∃ rs, answer = Resource.listJson rs) ↔ ∃ rs, result = Except.ok rs)
  stores : ∀ result, ⟨.selectResources u, result⟩ ∈ past →
    ((∃ key ttl text ok, (⟨.redisSetex key ttl text, ok⟩ : Event actions) ∈ past) ↔
      ∃ rs, result = Except.ok rs)
  rows : ∀ rs, ⟨.selectResources u, Except.ok rs⟩ ∈ past → answer = Resource.listJson rs
  stored : ∀ key ttl text ok, (⟨.redisSetex key ttl text, ok⟩ : Event actions) ∈ past →
    key = (CacheKey.list u).text ∧ ∃ rs, ⟨.selectResources u, Except.ok rs⟩ ∈ past ∧
      lib.dump (Resource.listJson rs) = some text

theorem ListsOwn.of_listed {u : ℤ} {past : History} {answer : Json} (hlib : RoundTrips P.json)
    (h : Listed P u past answer)
    (hdump : ∀ rs, ⟨.selectResources u, Except.ok rs⟩ ∈ past →
      (P.json.dump (Resource.listJson rs)).isSome)
    (hhits : ∀ key text, ⟨.redisGet key, some text⟩ ∈ past → CacheText P.json key text) :
    ListsOwn P.json u past answer := by
  have hloaded (rs : List Resource) (hmem : ⟨.selectResources u, Except.ok rs⟩ ∈ past) :
      answer = Resource.listJson rs ∧
        ∃ key ttl text ok, (⟨.redisSetex key ttl text, ok⟩ : Event actions) ∈ past := by
    obtain ⟨text, htext⟩ := Option.isSome_iff_exists.mp (hdump rs hmem)
    obtain ⟨hanswer, ok, hstored⟩ := h.loaded rs text hmem htext
    exact ⟨hanswer, _, _, _, ok, hstored⟩
  refine ⟨h.source.imp_right ?_, fun result hmem => ?_, fun result hmem => ?_,
    fun rs hmem => (hloaded rs hmem).1, h.stored⟩
  · rintro ⟨text, hmem, hparse⟩
    obtain ⟨rs, hdumped, hanswer⟩ := (hhits _ text hmem).list hlib hparse
    exact ⟨rs, text, hmem, hdumped, hanswer⟩
  · rcases result with f | rs
    · refine iff_of_false (fun ⟨rs, hrs⟩ => ?_) nofun
      exact Json.ne_error (Resource.error?_listJson rs) _ (hrs.symm.trans (h.failed f hmem).1)
    · exact iff_of_true ⟨rs, (hloaded rs hmem).1⟩ ⟨rs, rfl⟩
  · rcases result with f | rs
    · refine iff_of_false (fun ⟨key, ttl, text, ok, hstored⟩ => ?_) nofun
      exact (h.failed f hmem).2 key ttl text ok hstored
    · exact iff_of_true (hloaded rs hmem).2 ⟨rs, rfl⟩

namespace CallPool

/-- A message that is about to be read holds what its reader last wrote, and a list that is
about to be selected can be dumped. -/
def Undisturbed (lib : JsonLib) (pool : CallPool ι) (l : ι × Event actions) : Prop :=
  (∀ d m, l.2.op = .readMsg d → lastWritten d (pool.threads l.1).past = some m →
    pool.shared.msg d = m) ∧
  ∀ u rs, l.2 = ⟨.selectResources u, Except.ok rs⟩ → (lib.dump (Resource.listJson rs)).isSome

/-- In the middle of the calls of one process. -/
structure Own (P : Platform) (query : ι → ServiceQuery) (pool : CallPool ι) : Prop where
  keeps : pool.Keeps (fun i => Guard P (query i)) fun i => Promise P (query i)
  reads : ∀ i, OwnReads (pool.threads i).past
  cached : ∀ key text, pool.shared.cache key = some text → CacheText P.json key text
  hits : ∀ i key text, ⟨.redisGet key, some text⟩ ∈ (pool.threads i).past → CacheText P.json key text
  selected : ∀ i k j, Selected (pool.threads i).past k j → CacheJson j
  dumped : ∀ i u rs, ⟨.selectResources u, Except.ok rs⟩ ∈ (pool.threads i).past →
    (P.json.dump (Resource.listJson rs)).isSome

variable {query : ι → ServiceQuery} {pool pool' : CallPool ι} {l : ι × Event actions}

theorem Own.step (h : pool.Own P query) (hown : pool.Undisturbed P.json l)
    (hstep : Pool.Step (World.does faults order) pool l pool') : pool'.Own P query := by
  obtain ⟨i, ⟨a, r⟩⟩ := l
  obtain ⟨hdoes, hpast, hothers⟩ := hstep.spec
  obtain ⟨hguard, hkeeps⟩ := h.keeps.step hstep
  -- a history that has not grown keeps what is known of it
  have hgrown {C : ι → History → Prop} (hold : ∀ j, C j (pool.threads j).past)
      (hnew : C i ((pool.threads i).past ++ [⟨a, r⟩])) (j : ι) : C j (pool'.threads j).past := by
    by_cases hij : j = i
    · subst hij
      rwa [hpast]
    · rw [hothers j hij]
      exact hold j
  refine ⟨hkeeps, ?_, fun key text hentry => ?_, ?_, ?_, ?_⟩
  · refine hgrown (C := fun _ => OwnReads) h.reads (ownReads_snoc.mpr ⟨h.reads i, fun d text he => ?_⟩)
    cases he
    obtain ⟨m, hm⟩ := Option.isSome_iff_exists.mp hguard
    exact hm.trans (congrArg some ((hown.1 d m rfl hm).symm.trans hdoes.1.symm))
  · rcases World.does_entry hdoes hentry with hentry | ⟨ttl, rfl⟩
    · exact h.cached key text hentry
    · obtain ⟨k, hkey, -, hfill⟩ := hguard
      obtain ⟨j, hj, hdump⟩ := hfill (Or.inl (h.reads i))
      exact ⟨k, j, hkey, shapes_of_selected hj, h.selected i k j hj, hdump⟩
  · refine hgrown (C := fun _ past => ∀ key text, ⟨.redisGet key, some text⟩ ∈ past →
      CacheText P.json key text) h.hits fun key text hmem => ?_
    rcases List.mem_append.mp hmem with hmem | hmem
    · exact h.hits i key text hmem
    · cases List.mem_singleton.mp hmem
      obtain ⟨-, hcached | ⟨-, hnone⟩⟩ := hdoes
      · exact h.cached key text hcached.symm
      · cases hnone
  · refine hgrown (C := fun _ past => ∀ k j, Selected past k j → CacheJson j) h.selected
      fun k j hj => ?_
    rcases selected_snoc hj with hj | hj
    · exact h.selected i k j hj
    · exact World.cacheJson_of_direct (direct_of_selected hdoes hj)
  · refine hgrown (C := fun _ past => ∀ u rs, ⟨.selectResources u, Except.ok rs⟩ ∈ past →
      (P.json.dump (Resource.listJson rs)).isSome) h.dumped fun u rs hmem => ?_
    rcases List.mem_append.mp hmem with hmem | hmem
    · exact h.dumped i u rs hmem
    · exact hown.2 u rs (List.mem_singleton.mp hmem).symm

omit [DecidableEq ι] in
theorem own_start {w : World} (hw : ∀ key text, w.cache key = some text → CacheText P.json key text) :
    (start P query w).Own P query :=
  ⟨fun i => serve_traces P (query i), fun _ => Prog.along_nil _, hw, fun _ _ _ hmem => (nomatch hmem),
    fun _ k j hj => absurd hj (not_selected_nil k j), fun _ _ _ hmem => (nomatch hmem)⟩

/-- **Own answers.** In every run in which no message changes between a call's last write
and its reads, and the rows that lists select can be dumped, a list request answers and
stores a list exactly if its own `SELECT` succeeded, and every error text of a resource or
user call reports an event of that call. -/
theorem answers_own (P : Platform) (faults : Faults) (order : RowOrder) (hlib : RoundTrips P.json)
    (query : ι → ServiceQuery) (w : World)
    (hw : ∀ key text, w.cache key = some text → CacheText P.json key text) (pool : CallPool ι)
    (hrun : Runs (Pool.Step (World.does faults order)) (Undisturbed P.json) (start P query w) pool)
    (i : ι) (answer : Json) (hanswer : (pool.threads i).prog = .ret answer) :
    (∀ u, query i = .getResources u → ListsOwn P.json u (pool.threads i).past answer) ∧
      ((∀ u filename contentType, query i ≠ .createUploadUrl u filename contentType) →
        ∀ text, answer.error? = some text →
          ∃ m, text = .str m ∧ OwnText P (query i) (pool.threads i).past m) := by
  have hown : pool.Own P query :=
    hrun.invariant (fun _ _ _ h hundisturbed hstep => h.step hundisturbed hstep) (own_start hw)
  have hpromise := hown.keeps.answer hanswer
  refine ⟨fun u hu => .of_listed hlib (hpromise.listed (hown.reads i) u hu) (hown.dumped i u)
    (hown.hits i), fun hquery text htext => ?_⟩
  rcases hpromise.explained (hown.reads i) hquery text htext with ⟨k, cached, hmem, hparse⟩ | hexplained
  · have := (hown.hits i _ _ hmem).error?_eq_none hlib hparse
    rw [this] at htext
    cases htext
  · exact hexplained

end CallPool

/-- A request of user 1 and one of user 2. -/
def twoLists (second : Bool) : ServiceQuery := if second then .getResources 2 else .getResources 1

/-- The database may fail. -/
def unreachable : Faults := ⟨False, True, False⟩

theorem failure_reported : ∃ pool : CallPool Bool,
    Reaches (Pool.Step (World.does unreachable ⟨id, fun _ => .refl _⟩))
      (CallPool.start listing twoLists (.initial (.empty User User.id) ∅)) pool ∧
    ListsOwn listing.json 1 (pool.threads false).past (.error (ascii "DB connection failed.")) ∧
    OwnText listing (twoLists false) (pool.threads false).past (ascii "DB connection failed.") := by
  have hstart : Runs (Pool.Step (World.does unreachable ⟨id, fun _ => .refl _⟩))
      (CallPool.Undisturbed listing.json)
      (CallPool.start listing twoLists (.initial (.empty User User.id) ∅))
      (CallPool.start listing twoLists (.initial (.empty User User.id) ∅)) := .refl
  have hfails := Pool.runs_act (Pool.runs_act (Pool.runs_act (Pool.runs_act hstart
    false ⟨.redisGet (CacheKey.list 1).text, none⟩ rfl ⟨rfl, Or.inl rfl⟩ ⟨nofun, nofun⟩)
    false ⟨.clearMsg .resource, ()⟩ rfl rfl ⟨nofun, nofun⟩)
    false ⟨.selectResources 1, Except.error .noConnection⟩ rfl (Or.inr ⟨trivial, ⟨_, rfl⟩, rfl⟩)
      ⟨nofun, nofun⟩)
    false ⟨.assignMsg .resource (ascii "DB connection failed."), ()⟩ rfl rfl ⟨nofun, nofun⟩
  have hreads := Pool.runs_act (Pool.runs_act hfails
    false ⟨.readMsg .resource, ascii "DB connection failed."⟩ rfl ⟨rfl, rfl⟩
      ⟨fun d m hd hm => by cases hd; exact Option.some.inj hm, nofun⟩)
    false ⟨.readMsg .resource, ascii "DB connection failed."⟩ rfl ⟨rfl, rfl⟩
      ⟨fun d m hd hm => by cases hd; exact Option.some.inj hm, nofun⟩
  have hown := CallPool.answers_own listing unreachable ⟨id, fun _ => .refl _⟩ listing_roundTrips _ _
    (fun _ _ hentry => by cases hentry) _ hreads false (.error (ascii "DB connection failed.")) rfl
  obtain ⟨m, hm, htext⟩ := hown.2 nofun (.str (ascii "DB connection failed.")) (Json.error?_error _)
  cases hm
  exact ⟨_, hreads.reaches, hown.1 1 rfl, htext⟩

/-- The second request clears the message of the first, whose failed `SELECT` becomes an
empty list, answered and stored. -/
theorem failure_masked : ∃ pool : CallPool Bool,
    Reaches (Pool.Step (World.does unreachable ⟨id, fun _ => .refl _⟩))
      (CallPool.start listing twoLists (.initial (.empty User User.id) ∅)) pool ∧
    (pool.threads false).prog = .ret (Resource.listJson []) ∧
    ⟨.selectResources 1, Except.error .noConnection⟩ ∈ (pool.threads false).past ∧
    pool.shared.cache (CacheKey.list 1).text = some emptyList := by
  have hstart : Reaches (Pool.Step (World.does unreachable ⟨id, fun _ => .refl _⟩))
      (CallPool.start listing twoLists (.initial (.empty User User.id) ∅))
      (CallPool.start listing twoLists (.initial (.empty User User.id) ∅)) := .refl
  have hfails := Pool.runs_act (Pool.runs_act (Pool.runs_act (Pool.runs_act hstart
    false ⟨.redisGet (CacheKey.list 1).text, none⟩ rfl ⟨rfl, Or.inl rfl⟩ trivial)
    false ⟨.clearMsg .resource, ()⟩ rfl rfl trivial)
    false ⟨.selectResources 1, Except.error .noConnection⟩ rfl (Or.inr ⟨trivial, ⟨_, rfl⟩, rfl⟩) trivial)
    false ⟨.assignMsg .resource (ascii "DB connection failed."), ()⟩ rfl rfl trivial
  have hclears := Pool.runs_act (Pool.runs_act hfails
    true ⟨.redisGet (CacheKey.list 2).text, none⟩ rfl ⟨rfl, Or.inl rfl⟩ trivial)
    true ⟨.clearMsg .resource, ()⟩ rfl rfl trivial
  have hmasked := Pool.runs_act (Pool.runs_act hclears
    false ⟨.readMsg .resource, []⟩ rfl ⟨rfl, rfl⟩ trivial)
    false ⟨.redisSetex (CacheKey.list 1).text 120 emptyList, true⟩ rfl (Or.inl ⟨rfl, rfl⟩) trivial
  refine ⟨_, hmasked, rfl, ?_, World.store_cache ..⟩
  exact List.mem_cons_of_mem _ (List.mem_cons_of_mem _ List.mem_cons_self)

end Service
end ResourceServer
