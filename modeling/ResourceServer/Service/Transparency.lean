import ResourceServer.Service.Coherence

/-!
# Transparency of the cache

Of calls served one after another, with reliable Redis commands and expiry at any time, a
read answers what the table holds, whether it found the cache entry or not.
-/

namespace ResourceServer
namespace Service

open CString

variable {P : Platform} {faults : Faults} {order : RowOrder} {w w' : World}

/-- The values that the services store in the cache: a resource, or a list of them, with
numbers that fit an `int`. -/
inductive CacheJson : Json → Prop where
  | resource (r : Resource) (hid : -2 ^ 31 ≤ r.id ∧ r.id ≤ intMax) : CacheJson r.json
  | list (rs : List Resource) (hid : ∀ r ∈ rs, -2 ^ 31 ≤ r.id ∧ r.id ≤ intMax) :
    CacheJson (Resource.listJson rs)

/-- `parse` undoes `dump` on them. -/
def RoundTrips (lib : JsonLib) : Prop :=
  ∀ j, CacheJson j → ∀ text, lib.dump j = some text → lib.parse text = .ok j

theorem CacheJson.error?_eq_none {j : Json} (h : CacheJson j) : j.error? = none := by
  cases h <;> rfl

theorem World.cacheJson_of_direct {k : CacheKey} {j : Json} (h : w.direct order k = some j) :
    CacheJson j := by
  have hid : ∀ r ∈ w.resources.rows, -2 ^ 31 ≤ r.id ∧ r.id ≤ intMax := by
    intro r hr
    have := w.resources.ids r hr
    have := w.resources.nextId_le
    omega
  cases k with
  | resource u i =>
    obtain ⟨r, hr, rfl⟩ := Option.map_eq_some_iff.mp h
    have hmem := List.mem_of_mem_head? (Option.mem_def.mpr hr)
    exact .resource _ (hid r (Table.mem_select.mp hmem).1)
  | list u =>
    cases h
    refine .list _ fun res hres => ?_
    obtain ⟨r, hr, rfl⟩ := List.mem_map.mp hres
    exact hid r (Table.mem_select.mp ((order.perm _).mem_iff.mp hr)).1

theorem exec_entry {σ : Type} {R : Env actions σ} {s s' : σ} {k : CacheKey} {text : Bytes} {j : Json}
    (hget : R (.redisGet k.text) s (some text) s') (hparse : P.json.parse text = .ok j) :
    Prog.Exec R s (serve P k.query) [⟨.redisGet k.text, some text⟩] s' j := by
  have hfound : parseCachedJson P.json (some text) = some j := by
    simp [parseCachedJson, hparse]
  cases k with
  | resource u i | list u =>
    apply exec_act_iff.mpr
    refine ⟨some text, s', [], hget, rfl, ?_⟩
    rw [hfound]
    exact .ret s' j

theorem World.Shows.parse {k : CacheKey} {text : Bytes} {j : Json} (hlib : RoundTrips P.json)
    (h : w.Shows P.json order k text) (hparse : P.json.parse text = .ok j) :
    w.direct order k = some j := by
  obtain ⟨j', hj', htext⟩ := h
  have hsame : Except.ok j = Except.ok j' :=
    hparse.symm.trans (hlib j' (World.cacheJson_of_direct hj') text htext)
  rw [Except.ok.inj hsame]
  exact hj'

/-- The messages hold what the call wrote. -/
structure MsgsOwn (w : World) (past : History) : Prop where
  reads : OwnReads past
  held : ∀ d m, lastWritten d past = some m → w.msg d = m

theorem MsgsOwn.step {q : ServiceQuery} {past : History} {a : Action} {r : a.Ret}
    (h : MsgsOwn w past) (hguard : Guard P q a past) (hdoes : World.does faults order a w r w') :
    MsgsOwn w' (past ++ [⟨a, r⟩]) := by
  constructor
  · refine ownReads_snoc.mpr ⟨h.reads, fun d text he => ?_⟩
    cases he
    obtain ⟨m, hm⟩ := Option.isSome_iff_exists.mp hguard
    exact hm.trans (congrArg some ((h.held d m hm).symm.trans hdoes.1.symm))
  · intro d m hm
    rw [lastWritten_snoc] at hm
    rw [World.does_msg hdoes d]
    cases hwritten : a.written d with
    | none =>
      rw [hwritten, Option.none_or] at hm
      exact h.held d m hm
    | some text =>
      rw [hwritten, Option.some_or] at hm
      exact Option.some.inj hm

/-- A call that reads `k` writes no row. -/
theorem writesRows_of_query {k : CacheKey} {a : Action} {past : History}
    (hguard : Guard P k.query a past) : a.writesRows = false := by
  cases a with
  | insertResource | updateResource =>
    obtain ⟨info, hq, -⟩ := hguard
    cases k <;> cases hq
  | deleteResource => cases k <;> cases hguard
  | _ => rfl

/-- In the middle of a call that reads `k` from `w₀`, whatever Redis does: an entry is one
of `w₀`, or the call has stored what the rows show. -/
structure Reading (P : Platform) (order : RowOrder) (k : CacheKey) (w₀ w : World) (past : History) :
    Prop where
  rows : w.resources = w₀.resources
  entries : ∀ key text, w.cache key = some text →
    w₀.cache key = some text ∨ key = k.text ∧ w₀.Shows P.json order k text
  selected : ∀ j, Selected past k j → w₀.direct order k = some j
  hit : ∀ text, ⟨.redisGet k.text, some text⟩ ∈ past →
    w₀.cache k.text = some text ∨ w₀.Shows P.json order k text
  msgs : MsgsOwn w past

theorem not_selected_nil (k : CacheKey) (j : Json) : ¬ Selected [] k j := by
  cases k with
  | resource u i => exact fun ⟨_, hmem, _⟩ => (nomatch hmem)
  | list u => exact fun ⟨_, hmem, _⟩ => (nomatch hmem)

theorem selected_snoc {past : History} {e : Event actions} {k : CacheKey} {j : Json}
    (h : Selected (past ++ [e]) k j) : Selected past k j ∨ Selected [e] k j := by
  cases k with
  | resource u i =>
    obtain ⟨r, hmem, hj⟩ := h
    exact (List.mem_append.mp hmem).imp (fun hmem => ⟨r, hmem, hj⟩) fun hmem => ⟨r, hmem, hj⟩
  | list u =>
    obtain ⟨rs, hmem, hj⟩ := h
    exact (List.mem_append.mp hmem).imp (fun hmem => ⟨rs, hmem, hj⟩) fun hmem => ⟨rs, hmem, hj⟩

/-- What a `SELECT` returns is what the table shows. -/
theorem direct_of_selected {a : Action} {r : a.Ret} {k : CacheKey} {j : Json}
    (hdoes : World.does faults order a w r w') (h : Selected [⟨a, r⟩] k j) :
    w.direct order k = some j := by
  cases k with
  | resource u i =>
    obtain ⟨res, hmem, rfl⟩ := h
    cases List.mem_singleton.mp hmem
    obtain ⟨hres, -⟩ := Faults.of_ok hdoes
    rw [World.direct, ← Function.comp_def, ← Option.map_map, ← hres, Option.map_some]
  | list u =>
    obtain ⟨rs, hmem, rfl⟩ := h
    cases List.mem_singleton.mp hmem
    obtain ⟨rfl, -⟩ := Faults.of_ok hdoes
    rfl

theorem Reading.step {k : CacheKey} {w₀ : World} {past : History} {a : Action} {r : a.Ret}
    (hguard : Guard P k.query a past) (h : Reading P order k w₀ w past)
    (hdoes : World.does faults order a w r w') : Reading P order k w₀ w' (past ++ [⟨a, r⟩]) := by
  have hdirect : ∀ k', w.direct order k' = w₀.direct order k' := direct_of_resources h.rows
  refine ⟨(World.does_resources hdoes (writesRows_of_query hguard)).trans h.rows, ?_, fun j hj => ?_,
    fun text hmem => ?_, h.msgs.step hguard hdoes⟩
  · intro key text hentry
    rcases World.does_entry hdoes hentry with hold | ⟨ttl, rfl⟩
    · exact h.entries key text hold
    · obtain ⟨k', hkey, hq, hfill⟩ := hguard
      obtain rfl := CacheKey.query_injective hq
      obtain ⟨j, hj, hdump⟩ := hfill (Or.inl h.msgs.reads)
      exact Or.inr ⟨hkey, j, h.selected j hj, hdump⟩
  · rcases selected_snoc hj with hj | hj
    · exact h.selected j hj
    · exact (hdirect k).symm.trans (direct_of_selected hdoes hj)
  · rcases List.mem_append.mp hmem with hmem | hmem
    · exact h.hit text hmem
    · cases List.mem_singleton.mp hmem
      obtain ⟨-, hcached | ⟨-, hnone⟩⟩ := hdoes
      · exact (h.entries k.text text hcached.symm).imp_right fun hown => hown.2
      · cases hnone

theorem reading_of_exec {k : CacheKey} {calls : History} {answer : Json}
    (hexec : Prog.Exec (World.does faults order) w (serve P k.query) calls w' answer) :
    Promise P k.query answer calls ∧ Reading P order k w w' calls := by
  have hstart : Reading P order k w w [] :=
    ⟨rfl, fun key text h => Or.inl h, fun j hj => absurd hj (not_selected_nil k j),
      fun text hmem => (nomatch hmem), ⟨Prog.along_nil _, nofun⟩⟩
  obtain ⟨hpromise, hend, -⟩ := hexec.along (serve_traces P k.query)
    (fun _ _ _ _ _ hguard h hdoes => Reading.step hguard h hdoes) hstart
  exact ⟨hpromise, hend⟩

theorem answer_of_exec {k : CacheKey} {calls : History} {answer : Json}
    (hlib : RoundTrips P.json)
    (hexec : Prog.Exec (World.does faults order) w (serve P k.query) calls w' answer)
    (hanswer : answer.error? = none) :
    (∃ text, ⟨.redisGet k.text, some text⟩ ∈ calls ∧ w.cache k.text = some text ∧
        P.json.parse text = .ok answer) ∨
      w.direct order k = some answer := by
  obtain ⟨hpromise, hend⟩ := reading_of_exec hexec
  rcases hpromise.shown (Or.inl hend.msgs.reads) k rfl hanswer with ⟨text, hmem, hparse⟩ | hselected
  · rcases hend.hit text hmem with hentry | hshows
    · exact Or.inl ⟨text, hmem, hentry, hparse⟩
    · exact Or.inr (hshows.parse hlib hparse)
  · exact Or.inr (hend.selected answer hselected)

theorem Reading.coherent {k : CacheKey} {calls : History} (h : Reading P order k w w' calls)
    (hw : w.Coherent P.json order fun _ => False) : w'.Coherent P.json order fun _ => False := by
  have hkept {k' : CacheKey} {text : Bytes} (hshows : w.Shows P.json order k' text) :
      w'.Shows P.json order k' text := by
    obtain ⟨j, hj, htext⟩ := hshows
    exact ⟨j, (direct_of_resources h.rows k').trans hj, htext⟩
  intro key text hentry
  rcases h.entries key text hentry with hold | ⟨hkey, hshows⟩
  · obtain ⟨k', hkey, hfalse | hshows⟩ := hw key text hold
    · exact hfalse.elim
    · exact ⟨k', hkey, Or.inr (hkept hshows)⟩
  · exact ⟨k, hkey, Or.inr (hkept hshows)⟩

theorem read_transparent {k : CacheKey} {calls : History} {answer : Json}
    (hlib : RoundTrips P.json) (hw : w.Coherent P.json order fun _ => False)
    (hexec : Prog.Exec (World.does faults order) w (serve P k.query) calls w' answer) :
    w'.resources = w.resources ∧ (answer.error? = none → w.direct order k = some answer) := by
  refine ⟨(reading_of_exec hexec).2.rows, fun hanswer => ?_⟩
  rcases answer_of_exec hlib hexec hanswer with ⟨text, -, hentry, hparse⟩ | hdirect
  · obtain ⟨k', hkey, hfalse | hshows⟩ := hw k.text text hentry
    · exact hfalse.elim
    · obtain rfl := CacheKey.text_injective hkey
      exact hshows.parse hlib hparse
  · exact hdirect

/-- What another call changes it owes. -/
theorem owes_coherent {q : ServiceQuery} {past : History} {a : Action} {r : a.Ret}
    (hredis : ¬ faults.redis) (hq : ∀ k : CacheKey, q ≠ k.query) (hguard : Guard P q a past)
    (h : w.Coherent P.json order (Owes past)) (hdoes : World.does faults order a w r w') :
    w'.Coherent P.json order (Owes (past ++ [⟨a, r⟩])) := by
  have hstep := h.step hredis hdoes fun key ttl text ha => by
    subst ha
    obtain ⟨k, -, hk, -⟩ := hguard
    exact absurd hk (hq k)
  intro key text hentry
  obtain ⟨k, hkey, hk⟩ := hstep key text hentry
  exact ⟨k, hkey, hk.imp_left owes_snoc.mpr⟩

theorem write_coherent {q : ServiceQuery} {calls : History} {answer : Json}
    (hredis : ¬ faults.redis) (hq : ∀ k : CacheKey, q ≠ k.query)
    (hw : w.Coherent P.json order fun _ => False)
    (hexec : Prog.Exec (World.does faults order) w (serve P q) calls w' answer) :
    w'.Coherent P.json order fun _ => False := by
  have hstart : w.Coherent P.json order (Owes []) := by
    intro key text hentry
    obtain ⟨k, hkey, hfalse | hshows⟩ := hw key text hentry
    · exact hfalse.elim
    · exact ⟨k, hkey, Or.inr hshows⟩
  obtain ⟨hpromise, hend, -⟩ := hexec.along (serve_traces P q)
    (fun _ _ _ _ _ hguard h hdoes => owes_coherent hredis hq hguard h hdoes) hstart
  intro key text hentry
  obtain ⟨k, hkey, howes | hshows⟩ := hend key text hentry
  · exact absurd howes (hpromise.settled k)
  · exact ⟨k, hkey, Or.inr hshows⟩

theorem coherent_step {turn : Turn} (hredis : ¬ faults.redis)
    (hw : w.Coherent P.json order fun _ => False) (hstep : World.Step P faults order w turn w') :
    w'.Coherent P.json order fun _ => False := by
  cases hstep with
  | expired key =>
    intro key' text hentry
    by_cases hkey : key' = key
    · subst hkey
      simp [World.evict] at hentry
    · simp only [World.evict, Function.update_of_ne hkey] at hentry
      exact hw key' text hentry
  | @served _ q calls answer hexec =>
    by_cases hq : ∃ k : CacheKey, q = k.query
    · obtain ⟨k, rfl⟩ := hq
      exact (reading_of_exec hexec).2.coherent hw
    · exact write_coherent hredis (fun k hk => hq ⟨k, hk⟩) hw hexec

theorem coherent_of_reaches {users : Table User User.id} {objects : Set (Bytes × Bytes)}
    (hredis : ¬ faults.redis)
    (hrun : Reaches (World.Step P faults order) (.initial users objects) w) :
    w.Coherent P.json order fun _ => False :=
  hrun.invariant (fun _ _ _ hw hstep => coherent_step hredis hw hstep) nofun

/-- **Transparency.** On any run without Redis failures, a read without an error answers
the JSON of the current rows, and no entry parses to an error. -/
theorem cache_transparent (P : Platform) (faults : Faults) (order : RowOrder)
    (users : Table User User.id) (objects : Set (Bytes × Bytes)) (hredis : ¬ faults.redis)
    (hlib : RoundTrips P.json) (w : World)
    (hrun : Reaches (World.Step P faults order) (.initial users objects) w) :
    (∀ (k : CacheKey) calls answer w', World.Step P faults order w (.served k.query calls answer) w' →
      answer.error? = none → w.direct order k = some answer ∧ w'.direct order k = some answer) ∧
    ∀ key text j, w.cache key = some text → P.json.parse text = .ok j → j.error? = none := by
  have hw := coherent_of_reaches hredis hrun
  constructor
  · rintro k calls answer w' ⟨hexec⟩ hanswer
    obtain ⟨hrows, hdirect⟩ := read_transparent hlib hw hexec
    exact ⟨hdirect hanswer, (direct_of_resources hrows k).trans (hdirect hanswer)⟩
  · intro key text j hentry hparse
    obtain ⟨k, -, hfalse | hshows⟩ := hw key text hentry
    · exact hfalse.elim
    · exact (World.cacheJson_of_direct (hshows.parse hlib hparse)).error?_eq_none

def emptyList : Bytes := ascii "\x7b\"data\":[]\x7d"

def listing : Platform where
  json :=
    { dump := fun
        | .obj [(key, .arr [])] => if key = ascii "data" then some emptyList else none
        | _ => none
      parse := fun text => if text = emptyList then .ok (Resource.listJson []) else .error .parseError }
  getenv _ := none
  sha256 _ := []

theorem listing_roundTrips : RoundTrips listing.json := by
  intro j hj text htext
  cases hj with
  | resource r => cases htext
  | list rs =>
    cases rs with
    | nil =>
      have : some emptyList = some text := htext
      rw [← Option.some.inj this]
      simp [listing]
    | cons r rs => cases htext

def oneResource : World :=
  (((World.initial (.empty User User.id) ∅).setMsg .resource []).insertRow
    ⟨1, 1, ascii "note", ascii "text", false⟩ (by decide) (by decide) (by decide)).evict
      (CacheKey.list 1).text

def note (content : Bytes) : Resource := ⟨1, ascii "note", content, false⟩

def noteText (content : Bytes) : Bytes :=
  ascii "\x7b\"id\":1,\"title\":\"note\",\"content\":\"" ++ content ++ ascii "\",\"is_file\":false\x7d"

/-- Knows two contents of the note. -/
def notes : Platform where
  json :=
    { dump := fun
        | .obj [(_, .int id), (_, .str title), (_, .str content), (_, .bool isFile)] =>
          if (⟨id, title, content, isFile⟩ : Resource) = note (ascii "text") ∨
              (⟨id, title, content, isFile⟩ : Resource) = note (ascii "new") then
            some (noteText content)
          else none
        | _ => none
      parse := fun text =>
        if text = noteText (ascii "text") then .ok (note (ascii "text")).json
        else if text = noteText (ascii "new") then .ok (note (ascii "new")).json
        else .error .parseError }
  getenv _ := none
  sha256 _ := []

theorem notes_roundTrips : RoundTrips notes.json := by
  intro j hj text htext
  cases hj with
  | list rs => cases htext
  | resource r =>
    have hdump : (if r = note (ascii "text") ∨ r = note (ascii "new") then some (noteText r.content)
        else none) = some text := htext
    split_ifs at hdump with hr
    rw [← Option.some.inj hdump]
    rcases hr with rfl | rfl
    · rfl
    · rfl

/-- Its owner has read it. -/
def readWorld : World :=
  (oneResource.setMsg .resource []).store (CacheKey.resource 1 1).text (noteText (ascii "text"))

def updatedWorld : World :=
  (((readWorld.setMsg .resource []).updateRows (ascii "note") (ascii "new") 1 1).evict
    (CacheKey.resource 1 1).text).evict (CacheKey.list 1).text

/-- Then updated it and read it again. -/
def rereadWorld : World :=
  (updatedWorld.setMsg .resource []).store (CacheKey.resource 1 1).text (noteText (ascii "new"))

theorem rereadWorld_transparent :
    rereadWorld.direct ⟨id, fun _ => .refl _⟩ (.resource 1 1) = some (note (ascii "new")).json := by
  have hcreate : Prog.Exec (World.does ⟨False, True, True⟩ ⟨id, fun _ => .refl _⟩)
      (.initial (.empty User User.id) ∅)
      (serve notes (.createResource ⟨0, 1, ascii "note", ascii "text", false⟩)) _ oneResource _ :=
    Prog.exec_call_iff.mpr ⟨(), _, _, rfl, rfl,
      .call (Or.inl ⟨rfl, 1, by decide, by decide, by decide, rfl⟩)
        (.call (Or.inl ⟨rfl, rfl⟩) (.ret _ _))⟩
  have hread : Prog.Exec (World.does ⟨False, True, True⟩ ⟨id, fun _ => .refl _⟩) oneResource
      (serve notes (.getResource 1 1)) _ readWorld _ :=
    .call ⟨rfl, Or.inl rfl⟩ (Prog.exec_call_iff.mpr ⟨(), _, _, rfl, rfl,
      .call (Or.inl ⟨rfl, rfl⟩) (.call (Or.inl ⟨rfl, rfl⟩) (.ret _ _))⟩)
  have hupdate : Prog.Exec (World.does ⟨False, True, True⟩ ⟨id, fun _ => .refl _⟩) readWorld
      (serve notes (.updateResource ⟨1, 1, ascii "note", ascii "new", false⟩)) _ updatedWorld _ :=
    Prog.exec_call_iff.mpr ⟨(), _, _, rfl, rfl, .call (Or.inl ⟨rfl, rfl⟩)
      (.call (Or.inl ⟨rfl, rfl⟩) (.call (Or.inl ⟨rfl, rfl⟩) (.ret _ _)))⟩
  have hreread : Prog.Exec (World.does ⟨False, True, True⟩ ⟨id, fun _ => .refl _⟩) updatedWorld
      (serve notes (.getResource 1 1)) _ rereadWorld _ :=
    .call ⟨rfl, Or.inl rfl⟩ (Prog.exec_call_iff.mpr ⟨(), _, _, rfl, rfl,
      .call (Or.inl ⟨rfl, rfl⟩) (.call (Or.inl ⟨rfl, rfl⟩) (.ret _ _))⟩)
  have hcached : rereadWorld.cache (CacheKey.resource 1 1).text = some (noteText (ascii "new")) := by
    simp [rereadWorld, World.store]
  have hhit : Prog.Exec (World.does ⟨False, True, True⟩ ⟨id, fun _ => .refl _⟩) rereadWorld
      (serve notes (CacheKey.resource 1 1).query)
      [⟨.redisGet (CacheKey.resource 1 1).text, some (noteText (ascii "new"))⟩] rereadWorld
      (note (ascii "new")).json :=
    exec_entry ⟨rfl, Or.inl hcached.symm⟩ rfl
  have hrun : Reaches (World.Step notes ⟨False, True, True⟩ ⟨id, fun _ => .refl _⟩)
      (.initial (.empty User User.id) ∅) rereadWorld :=
    .snoc (.snoc (.snoc (.snoc .refl (.served hcreate) trivial) (.served hread) trivial)
      (.served hupdate) trivial) (.served hreread) trivial
  exact ((cache_transparent notes ⟨False, True, True⟩ ⟨id, fun _ => .refl _⟩ (.empty User User.id) ∅
    id notes_roundTrips rereadWorld hrun).1 (.resource 1 1) _ _ _ (.served hhit) rfl).1

end Service
end ResourceServer
