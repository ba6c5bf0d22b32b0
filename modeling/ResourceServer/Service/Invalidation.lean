import ResourceServer.Service.Cluster

/-!
# Reads behind a write

A write ignores what its invalidations return. Calls of several processes run one after
another, with Redis commands that may fail; which reads behind a write can still answer with
a value from before it is decided by the entries the write leaves.
-/

namespace ResourceServer
namespace Service

def ServiceQuery.written : ServiceQuery → Option (ℤ × ℤ)
  | .updateResource info => some (info.userId, info.id)
  | .deleteResource u i => some (u, i)
  | _ => none

/-- The entries that show resource `i` of user `u`. -/
def CacheKey.Covers (u i : ℤ) (k : CacheKey) : Prop := k = .resource u i ∨ k = .list u

section World

variable {P : Platform} {faults : Faults} {order : RowOrder} {w w' : World}

theorem exec_entries {q : ServiceQuery} {calls : History} {answer : Json} {key text : Bytes}
    (hexec : Prog.Exec (World.does faults order) w (serve P q) calls w' answer)
    (hentry : w'.cache key = some text) :
    w.cache key = some text ∨
      ∃ k : CacheKey, key = k.text ∧ w.Shows P.json order k text ∧ w'.resources = w.resources := by
  by_cases hq : ∃ k : CacheKey, q = k.query
  · obtain ⟨k, rfl⟩ := hq
    have hend := (reading_of_exec hexec).2
    exact (hend.entries key text hentry).imp_right fun ⟨hkey, hshows⟩ => ⟨k, hkey, hshows, hend.rows⟩
  · left
    refine (hexec.along (I := fun v _ => ∀ text, v.cache key = some text → w.cache key = some text)
      (serve_traces P q) ?_ fun _ h => h).2.1 text hentry
    intro a v r v' past hguard hv hstep text hentry
    rcases World.does_entry hstep hentry with hold | ⟨ttl, rfl⟩
    · exact hv text hold
    · obtain ⟨k, -, hk, -⟩ := hguard
      exact absurd ⟨k, hk⟩ hq

/-- Each of the two entries is gone, or its `DEL` failed. -/
theorem invalidations_exec {u i : ℤ} {text : Bytes} {calls : History} {answer : Json}
    (hexec : Prog.Exec (World.does faults order) w (do
      let _ ← ResourceCache.invalidateResource u i
      let _ ← ResourceCache.invalidateResources u
      return Json.status text) calls w' answer) {k : CacheKey} (hk : k.Covers u i) :
    w'.cache k.text = none ∨ ⟨.redisDel k.text, false⟩ ∈ calls := by
  obtain ⟨ok, w₁, rest, hfirst, rfl, hrest⟩ := exec_act_iff.mp hexec
  obtain ⟨ok', w₂, last, hsecond, rfl, hlast⟩ := exec_act_iff.mp hrest
  obtain ⟨-, rfl, -⟩ := Prog.exec_ret_iff.mp hlast
  rcases hk with rfl | rfl
  · rcases hfirst with ⟨-, rfl⟩ | ⟨-, rfl, -⟩
    · left
      rcases hsecond with ⟨-, rfl⟩ | ⟨-, -, rfl | rfl⟩
      all_goals simp [World.evict, Function.update_apply]
    · exact Or.inr (by simp)
  · rcases hsecond with ⟨-, rfl⟩ | ⟨-, rfl, -⟩
    · left
      simp [World.evict]
    · exact Or.inr (by simp)

/-- A write that succeeds has tried both invalidations. -/
theorem command_exec {dao : ServiceProg Bool} {u i : ℤ} {text : Bytes} {calls : History}
    {answer : Json} {k : CacheKey}
    (hexec : Prog.Exec (World.does faults order) w (dao >>= fun ok =>
      if !ok then readMsg .resource >>= fun text => return Json.error text
      else do
        let _ ← ResourceCache.invalidateResource u i
        let _ ← ResourceCache.invalidateResources u
        return Json.status text) calls w' answer)
    (hok : answer.error? = none) (hk : k.Covers u i) :
    w'.cache k.text = none ∨ ⟨.redisDel k.text, false⟩ ∈ calls := by
  obtain ⟨first, w₁, last, hlast, rfl⟩ := succeeded_exec hexec hok
  exact (invalidations_exec hlast hk).imp_right fun hfailed => List.mem_append_right _ hfailed

theorem written_exec {q : ServiceQuery} {u i : ℤ} {calls : History} {answer : Json} {k : CacheKey}
    (hq : q.written = some (u, i))
    (hexec : Prog.Exec (World.does faults order) w (serve P q) calls w' answer)
    (hok : answer.error? = none) (hk : k.Covers u i) :
    w'.cache k.text = none ∨ ⟨.redisDel k.text, false⟩ ∈ calls := by
  cases q with
  | updateResource info =>
    cases hq
    exact command_exec hexec hok hk
  | deleteResource u i =>
    cases hq
    obtain ⟨loading, w₁, found, rest, -, hrest, rfl⟩ := Prog.exec_bind_iff.mp hexec
    cases found with
    | none =>
      obtain ⟨text, -, -, rfl⟩ := readError_exec hrest
      exact absurd hok (Json.error?_error_ne_none text)
    | some r =>
      dsimp only at hrest
      split_ifs at hrest
      · obtain ⟨removing, w₂, removed, last, -, hlast, rfl⟩ := Prog.exec_bind_iff.mp hrest
        cases removed with
        | error text =>
          obtain ⟨-, -, rfl⟩ := Prog.exec_ret_iff.mp hlast
          exact absurd hok (Json.error?_error_ne_none text)
        | ok _ =>
          refine (command_exec hlast hok hk).imp_right fun hfailed => ?_
          exact List.mem_append_right _ (List.mem_append_right _ hfailed)
      · exact (command_exec hrest hok hk).imp_right fun hfailed => List.mem_append_right _ hfailed
  | _ => cases hq

end World

namespace Cluster

variable {ι : Type} [DecidableEq ι] {P : Platform} {faults : Faults} {order : RowOrder}
  {c c' : Cluster ι}

/-- The stores, whoever looks. -/
def stores (c : Cluster ι) : World where
  resources := c.resources
  users := c.users
  cache := c.cache
  msg _ := []
  objects := c.objects

/-- A step with the state it leads to. -/
def Traced (P : Platform) (faults : Faults) (order : RowOrder) (c : Cluster ι) (l : Turn × Cluster ι)
    (c' : Cluster ι) : Prop := Step P faults order c l.1 c' ∧ l.2 = c'

/-- Behind `c`, every read of resource `i` of user `u` answers what the table held in `c` or
in a later state. -/
def NeverStale (P : Platform) (faults : Faults) (order : RowOrder) (c : Cluster ι) (u i : ℤ) : Prop :=
  ∀ (trace : List (Turn × Cluster ι)) (c₁ c₂ : Cluster ι) (k : CacheKey) (calls : History)
    (answer : Json), Path (Traced P faults order) c trace c₁ → k.Covers u i →
    Step P faults order c₁ (.served k.query calls answer) c₂ → answer.error? = none →
    ∃ c' ∈ c :: trace.map Prod.snd, c'.stores.direct order k = some answer

/-- An entry under `k` shows rows of one of `states`. -/
def EntryOf (P : Platform) (order : RowOrder) (states : List (Cluster ι)) (k : CacheKey)
    (c : Cluster ι) : Prop :=
  ∀ text, c.cache k.text = some text → ∃ c' ∈ states, c'.stores.Shows P.json order k text

theorem Step.entry {turn : Turn} {key text : Bytes} (h : Step P faults order c turn c')
    (hentry : c'.cache key = some text) : c.cache key = some text ∨
      ∃ k : CacheKey, key = k.text ∧ c'.stores.Shows P.json order k text := by
  cases h with
  | served i hexec =>
    refine (exec_entries (exec_view hexec) hentry).imp_right ?_
    rintro ⟨k, hkey, ⟨j, hj, htext⟩, hrows⟩
    exact ⟨k, hkey, j, (direct_of_resources hrows.symm k).symm.trans hj, htext⟩
  | expired key' =>
    left
    by_cases hkey : key = key'
    · simp [hkey] at hentry
    · simpa [hkey] using hentry

theorem EntryOf.step {states : List (Cluster ι)} {k : CacheKey} {turn : Turn}
    (h : EntryOf P order states k c) (hstep : Step P faults order c turn c') :
    EntryOf P order (states ++ [c']) k c' := by
  intro text hentry
  rcases hstep.entry hentry with hold | ⟨k', hkey, hshows⟩
  · obtain ⟨c₀, hmem, hshows⟩ := h text hold
    exact ⟨c₀, List.mem_append_left _ hmem, hshows⟩
  · obtain rfl := CacheKey.text_injective hkey
    exact ⟨c', List.mem_append_right _ (List.mem_singleton.mpr rfl), hshows⟩

theorem EntryOf.path {states : List (Cluster ι)} {k : CacheKey} {trace : List (Turn × Cluster ι)}
    (hpath : Path (Traced P faults order) c trace c') (h : EntryOf P order states k c) :
    EntryOf P order (states ++ trace.map Prod.snd) k c' := by
  induction hpath generalizing states with
  | nil c => simpa using h
  | @cons c c₁ c₂ l trace hstep _ ih =>
    obtain ⟨hstep, hl⟩ := hstep
    have := ih (h.step hstep)
    simpa [hl] using this

theorem last_mem_trace {trace : List (Turn × Cluster ι)}
    (hpath : Path (Traced P faults order) c trace c') : c' ∈ c :: trace.map Prod.snd := by
  induction hpath with
  | nil c => exact List.mem_singleton.mpr rfl
  | cons hstep _ ih =>
    rw [List.map_cons, hstep.2]
    exact List.mem_cons_of_mem _ ih

theorem available_of_path {trace : List (Turn × Cluster ι)} {j : ι}
    (hpath : Path (Traced P faults order) c trace c')
    (hj : (c'.processes j).available = true) : (c.processes j).available = true := by
  induction hpath with
  | nil c => exact hj
  | cons hstep _ ih => exact hstep.1.available (ih hj)

/-- Every entry is the text of a value that can be read back. -/
def Stored (P : Platform) (c : Cluster ι) : Prop :=
  ∀ key text, c.cache key = some text → ∃ j, CacheJson j ∧ P.json.dump j = some text

theorem Stored.step {turn : Turn} (h : c.Stored P) (hstep : Step P faults order c turn c') :
    c'.Stored P := by
  intro key text hentry
  rcases hstep.entry hentry with hold | ⟨k, -, j, hj, htext⟩
  · exact h key text hold
  · exact ⟨j, World.cacheJson_of_direct hj, htext⟩

theorem read_entry (P : Platform) (faults : Faults) (order : RowOrder) {i : ι} {k : CacheKey}
    {text : Bytes} {j : Json} (havailable : (c.processes i).available = true) (hentry : c.cache k.text = some text)
    (hparse : P.json.parse text = .ok j) :
    Step P faults order c (.served k.query [⟨.redisGet k.text, some text⟩] j) c := by
  have hget : does faults order i (.redisGet k.text) c (some text) c := by
    simp only [does, if_pos havailable]
    exact Or.inl ⟨hentry.symm, trivial⟩
  exact Step.served i (exec_entry hget hparse)

/-- A `DEL` of the call failed and left an entry that no longer shows the rows, for a process
that still has Redis. -/
def LeavesStale (P : Platform) (order : RowOrder) (calls : History) (c : Cluster ι) (u i : ℤ) : Prop :=
  (∃ j, (c.processes j).available = true) ∧ ∃ k : CacheKey, k.Covers u i ∧
    ⟨.redisDel k.text, false⟩ ∈ calls ∧
      ∃ text, c.cache k.text = some text ∧ ¬ c.stores.Shows P.json order k text

/-- Behind an update or a deletion that answered success, reads never answer a value from
before it exactly if no failed invalidation left a stale entry. -/
theorem neverStale_iff {c₀ c₁ c₂ : Cluster ι} {q : ServiceQuery} {u i : ℤ} {calls : History}
    {answer : Json} (hlib : RoundTrips P.json) (hempty : ∀ key, c₀.cache key = none)
    (hrun : Reaches (Step P faults order) c₀ c₁)
    (hwrite : Step P faults order c₁ (.served q calls answer) c₂)
    (hq : q.written = some (u, i)) (hok : answer.error? = none) :
    NeverStale P faults order c₂ u i ↔ ¬ LeavesStale P order calls c₂ u i := by
  have hstored : c₂.Stored P := by
    refine Stored.step ?_ hwrite
    apply Reaches.invariant (I := fun c => c.Stored P) hrun
    · exact fun c turn c' hc hstep => hc.step hstep
    · intro key text hentry
      rw [hempty key] at hentry
      cases hentry
  constructor
  · rintro hnever ⟨⟨j, havailable⟩, k, hk, -, text, hentry, hstale⟩
    obtain ⟨value, hvalue, htext⟩ := hstored k.text text hentry
    have hread := read_entry P faults order havailable hentry (hlib value hvalue text htext)
    obtain ⟨c, hmem, hdirect⟩ :=
      hnever [] c₂ c₂ k _ value (.nil c₂) hk hread hvalue.error?_eq_none
    obtain rfl := List.mem_singleton.mp hmem
    exact hstale ⟨value, hdirect, htext⟩
  · intro hnone trace c c' k readCalls value hpath hk hread hvalue
    obtain ⟨reader, hexec⟩ := hread
    rcases answer_of_exec hlib (exec_view hexec) hvalue with ⟨text, hmem, hentry, hparse⟩ | hdirect
    · have havailable := available_of_path hpath (exec_hit hexec hmem)
      have hfresh : EntryOf P order [c₂] k c₂ := by
        intro text hentry
        refine ⟨c₂, List.mem_singleton.mpr rfl, ?_⟩
        by_contra hstale
        obtain ⟨writer, hcall⟩ := hwrite
        rcases written_exec hq (exec_view hcall) hok hk with hgone | hfailed
        · exact absurd (hgone.symm.trans hentry) nofun
        · exact hnone ⟨⟨reader, havailable⟩, k, hk, hfailed, text, hentry, hstale⟩
      obtain ⟨c₃, hc₃, hshows⟩ := hfresh.path hpath text hentry
      exact ⟨c₃, hc₃, hshows.parse hlib hparse⟩
    · exact ⟨c, last_mem_trace hpath, hdirect⟩

theorem list_runs (P : Platform) (faults : Faults) (order : RowOrder) (i : ι) {u : ℤ} {text : Bytes}
    (havailable : (c.processes i).available = true)
    (hmiss : c.cache (CacheKey.list u).text = none)
    (hdump : P.json.dump (Resource.listJson ((order.sort (c.stores.owned u)).map Row.resource)) =
      some text) :
    ∃ calls answer c', Step P faults order c (.served (.getResources u) calls answer) c' ∧
      c'.resources = c.resources ∧ c'.cache (CacheKey.list u).text = some text ∧
      ∀ j, (c'.processes j).available = (c.processes j).available := by
  have hget : does faults order i (.redisGet (CacheKey.list u).text) c none c := by
    simp only [does, if_pos havailable]
    exact Or.inl ⟨hmiss.symm, trivial⟩
  have hcleared : does faults order i (.clearMsg .resource) c ()
      (c.put i ((c.view i).setMsg .resource [])) := ⟨_, rfl, rfl⟩
  generalize hc₁ : c.put i ((c.view i).setMsg .resource []) = c₁ at hcleared
  have hselect : does faults order i (.selectResources u) c₁
      (Except.ok ((order.sort (c.stores.owned u)).map Row.resource)) c₁ := by
    refine ⟨c₁.view i, Or.inl ⟨?_, rfl⟩, (put_view c₁ i).symm⟩
    rw [← hc₁]
    rfl
  have hread : does faults order i (.readMsg .resource) c₁ [] c₁ := by
    refine ⟨c₁.view i, ⟨?_, rfl⟩, (put_view c₁ i).symm⟩
    rw [← hc₁, view_put]
    change [] = Function.update (c.view i).msg .resource [] .resource
    rw [Function.update_self]
  have havailable₁ : (c₁.processes i).available = true := by
    rw [← hc₁, available_put]
    exact havailable
  have hset : does faults order i
      (.redisSetex (CacheKey.list u).text (CacheKey.list u).ttl text) c₁ true
      (c₁.put i ((c₁.view i).store (CacheKey.list u).text text)) := by
    simp only [does, if_pos havailable₁]
    exact Or.inl ⟨rfl, trivial⟩
  have hloaded : Prog.Exec (does faults order i) c₁
      (ResourceService.listLoaded P u ((order.sort (c.stores.owned u)).map Row.resource))
      [⟨.readMsg .resource, []⟩,
        ⟨.redisSetex (CacheKey.list u).text (CacheKey.list u).ttl text, true⟩]
      (c₁.put i ((c₁.view i).store (CacheKey.list u).text text))
      (Resource.listJson ((order.sort (c.stores.owned u)).map Row.resource)) := by
    refine exec_act_iff.mpr ⟨[], c₁, _, hread, rfl, ?_⟩
    rw [if_neg (by simp), hdump]
    exact .call hset (.ret _ _)
  refine ⟨_, _, _, .served i (exec_act_iff.mpr ⟨none, c, _, hget, rfl,
    exec_act_iff.mpr ⟨(), c₁, _, hcleared, rfl,
      exec_act_iff.mpr ⟨_, c₁, _, hselect, rfl, hloaded⟩⟩⟩), ?_, ?_, ?_⟩
  · rw [← hc₁]
    rfl
  · exact World.store_cache ..
  · intro j
    rw [available_put, ← hc₁, available_put]

/-- The state behind a `DEL` that is answered, or fails and has the client reconnect. -/
def deleted (c : Cluster ι) (i : ι) (key : Bytes) (ok : Bool) : Cluster ι :=
  if ok then c.put i ((c.view i).evict key) else c

theorem does_deleted (faults : Faults) (order : RowOrder) {i : ι} (key : Bytes) (ok : Bool)
    (havailable : (c.processes i).available = true) :
    does faults order i (.redisDel key) c ok (c.deleted i key ok) := by
  simp only [does, if_pos havailable, deleted]
  cases ok with
  | true => exact Or.inl ⟨rfl, rfl⟩
  | false => exact Or.inr ⟨rfl, Or.inl (Or.inl rfl)⟩

theorem deleted_resources (i : ι) (key : Bytes) (ok : Bool) :
    (c.deleted i key ok).resources = c.resources := by
  cases ok with
  | true => rfl
  | false => rfl

theorem available_deleted (i j : ι) (key : Bytes) (ok : Bool) :
    ((c.deleted i key ok).processes j).available = (c.processes j).available := by
  cases ok with
  | true => exact available_put ..
  | false => rfl

/-- An update of a row, with the results of its two `DEL`s. -/
theorem update_runs (P : Platform) (faults : Faults) (order : RowOrder) {i : ι} {info : ResourceInfo}
    {r : Row} (ok ok' : Bool) (havailable : (c.processes i).available = true) (hr : r ∈ c.resources.rows)
    (hu : r.userId = info.userId) (hi : r.id = info.id) :
    let w := ((c.view i).setMsg .resource []).updateRows (CString.cstr info.title)
      (CString.cstr info.content) info.userId info.id
    Step P faults order c
      (.served (.updateResource info)
        [cleared .resource,
          ⟨.updateResource (CString.cstr info.title) (CString.cstr info.content) info.userId info.id,
            Except.ok 1⟩, ⟨.redisDel (CacheKey.resource info.userId info.id).text, ok⟩,
          ⟨.redisDel (CacheKey.list info.userId).text, ok'⟩] (.status (ascii "updated")))
      (((c.put i w).deleted i (CacheKey.resource info.userId info.id).text ok).deleted i
        (CacheKey.list info.userId).text ok') := by
  intro w
  have hcleared : does faults order i (.clearMsg .resource) c ()
      (c.put i ((c.view i).setMsg .resource [])) := ⟨_, rfl, rfl⟩
  have hfound : ((c.view i).setMsg .resource []).found info.userId info.id = [r] := by
    rw [← hu, ← hi]
    exact World.found_self hr
  have hupdate : does faults order i (.updateResource (CString.cstr info.title)
      (CString.cstr info.content) info.userId info.id) (c.put i ((c.view i).setMsg .resource []))
      (Except.ok 1) (c.put i w) := by
    refine ⟨w, Or.inl ⟨?_, ?_⟩, (put_put ..).symm⟩
    · rw [view_put, hfound]
      rfl
    · rw [view_put]
  have havailable₂ : ((c.put i w).processes i).available = true := by
    rw [available_put]
    exact havailable
  have hfirst := does_deleted faults order (CacheKey.resource info.userId info.id).text ok havailable₂
  have havailable₃ : (((c.put i w).deleted i (CacheKey.resource info.userId info.id).text ok).processes
      i).available = true := by
    rw [available_deleted]
    exact havailable₂
  have hsecond := does_deleted faults order (CacheKey.list info.userId).text ok' havailable₃
  exact .served i (exec_act_iff.mpr ⟨(), _, _, hcleared, rfl,
    exec_act_iff.mpr ⟨Except.ok 1, _, _, hupdate, rfl,
      exec_act_iff.mpr ⟨ok, _, _, hfirst, rfl, exec_act_iff.mpr ⟨ok', _, _, hsecond, rfl, .ret _ _⟩⟩⟩⟩)

/-- The note of user 2. -/
def note : Row := ⟨1, 2, ascii "a", [], false⟩

def noteText : Bytes :=
  ascii "\x7b\"data\":[\x7b\"id\":1,\"title\":\"a\",\"content\":\"\",\"is_file\":false\x7d]\x7d"

def noting : Platform where
  json :=
    { dump := fun
        | .obj [(_, .arr [.obj [(_, .int id), (_, .str title), (_, .str content), (_, .bool isFile)]])] =>
          if (⟨id, title, content, isFile⟩ : Resource) = note.resource then some noteText else none
        | _ => none
      parse := fun text =>
        if text = noteText then .ok (Resource.listJson [note.resource]) else .error .parseError }
  getenv _ := none
  sha256 _ := []

theorem noting_roundTrips : RoundTrips noting.json := by
  intro j hj text htext
  cases hj with
  | resource r => cases htext
  | list rs =>
    match rs with
    | [] => cases htext
    | [r] =>
      have hnote : (if r = note.resource then some noteText else none) = some text := htext
      split_ifs at hnote with hr
      rw [← Option.some.inj hnote, hr]
      simp [noting]
    | _ :: _ :: _ => cases htext

def noted : Cluster Bool where
  resources := (Table.empty Row Row.id).insert note (by decide) (by decide) (by decide)
  users := .empty User User.id
  cache _ := none
  objects := ∅
  processes _ := ⟨fun _ => [], true⟩

def noteUpdate : ResourceInfo := ⟨1, 2, ascii "b", [], false⟩

theorem noted_listed : ∃ c, Reaches (Step noting .never ⟨id, fun _ => .refl _⟩) noted c ∧
    c.resources = noted.resources ∧ c.cache (CacheKey.list 2).text = some noteText ∧
    ∀ j, (c.processes j).available = true := by
  have hdump : noting.json.dump (Resource.listJson
      ((RowOrder.sort ⟨id, fun _ => .refl _⟩ (noted.stores.owned 2)).map Row.resource)) =
      some noteText := by
    decide +kernel
  obtain ⟨calls, answer, c, hstep, hresources, hentry, havailable⟩ :=
    list_runs (c := noted) noting .never ⟨id, fun _ => .refl _⟩ true rfl rfl hdump
  exact ⟨c, Runs.snoc .refl hstep trivial, hresources, hentry, havailable⟩

theorem noted_updated {c : Cluster Bool} (hresources : c.resources = noted.resources)
    (havailable : ∀ j, (c.processes j).available = true) (ok : Bool) : ∃ c',
      Step noting .never ⟨id, fun _ => .refl _⟩ c
        (.served (.updateResource noteUpdate)
          [cleared .resource, ⟨.updateResource (ascii "b") [] 2 1, Except.ok 1⟩,
            ⟨.redisDel (CacheKey.resource 2 1).text, true⟩,
            ⟨.redisDel (CacheKey.list 2).text, ok⟩] (.status (ascii "updated"))) c' ∧
      c'.resources.rows = [{ note with title := ascii "b" }] ∧
      (ok = false → c'.cache (CacheKey.list 2).text = c.cache (CacheKey.list 2).text) ∧
      ∀ j, (c'.processes j).available = true := by
  have hnote : note ∈ c.resources.rows := by
    rw [hresources]
    exact List.mem_singleton.mpr rfl
  have hkeys : (CacheKey.list 2).text ≠ (CacheKey.resource 2 1).text := by
    intro h
    cases CacheKey.text_injective h
  refine ⟨_, update_runs noting .never ⟨id, fun _ => .refl _⟩ true ok (havailable false) hnote rfl rfl,
    ?_, ?_, ?_⟩
  · rw [deleted_resources, deleted_resources]
    change c.resources.rows.map _ = _
    rw [hresources]
    rfl
  · rintro rfl
    exact Function.update_of_ne hkeys none c.cache
  · intro j
    rw [available_deleted, available_deleted, available_put]
    exact havailable j

/-- The event of a `DEL` that failed. -/
def delFailed : Event actions → Bool
  | ⟨.redisDel _, ok⟩ => !ok
  | _ => false

theorem noted_neverStale : ∃ (c c' : Cluster Bool) (calls : History),
    Reaches (Step noting .never ⟨id, fun _ => .refl _⟩) noted c ∧
    Step noting .never ⟨id, fun _ => .refl _⟩ c
      (.served (.updateResource noteUpdate) calls (.status (ascii "updated"))) c' ∧
    NeverStale noting .never ⟨id, fun _ => .refl _⟩ c' 2 1 := by
  obtain ⟨c, hrun, hresources, -, havailable⟩ := noted_listed
  obtain ⟨c', hwrite, -⟩ := noted_updated hresources havailable true
  have hempty : ∀ key, noted.cache key = none := fun _ => rfl
  refine ⟨c, c', _, hrun, hwrite, ?_⟩
  apply (neverStale_iff noting_roundTrips hempty hrun hwrite rfl rfl).mpr
  rintro ⟨-, k, -, hfailed, -⟩
  simp only [cleared, List.mem_cons, List.not_mem_nil, or_false] at hfailed
  rcases hfailed with h | h | h | h
  all_goals exact Bool.noConfusion (show true = false from congrArg delFailed h)

/-- The list is read again behind the failed `DEL`, and shows the old title. -/
theorem failed_del_stale :
    ¬ ∀ (c c' : Cluster Bool) (q : ServiceQuery) (u i : ℤ) (calls : History) (answer : Json),
      Reaches (Step noting .never ⟨id, fun _ => .refl _⟩) noted c →
      Step noting .never ⟨id, fun _ => .refl _⟩ c (.served q calls answer) c' →
      q.written = some (u, i) → answer.error? = none →
      NeverStale noting .never ⟨id, fun _ => .refl _⟩ c' u i := by
  intro h
  obtain ⟨c, hrun, hresources, hentry, havailable⟩ := noted_listed
  obtain ⟨c', hwrite, hrows, hkept, havailable'⟩ := noted_updated hresources havailable false
  have hread := read_entry noting .never ⟨id, fun _ => .refl _⟩ (j := Resource.listJson [note.resource])
    (havailable' true) ((hkept rfl).trans hentry) (by simp [noting])
  obtain ⟨c₁, hmem, hdirect⟩ := h c c' _ 2 1 _ _ hrun hwrite rfl rfl [] c' c' (.list 2) _ _ (.nil c')
    (Or.inr rfl) hread rfl
  obtain rfl := List.mem_singleton.mp hmem
  have howned : c₁.stores.owned 2 = [{ note with title := ascii "b" }] := by
    change c₁.resources.rows.filter _ = _
    rw [hrows]
    rfl
  simp only [World.direct, howned] at hdirect
  have hlists := Option.some.inj hdirect
  simp [Resource.listJson, Resource.json, Row.resource, note, ascii] at hlists

end Cluster

end Service
end ResourceServer
