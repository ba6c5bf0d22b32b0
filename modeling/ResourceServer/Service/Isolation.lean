import ResourceServer.Service.Transparency

/-!
# Isolation of users

A call that acts for one user leaves the rows and the cache entries of every other user as
they are, and with them the answers of that user's reads. A resource of another user
answers as one that does not exist.
-/

namespace ResourceServer
namespace Service

open CString

variable {P : Platform} {faults : Faults} {order : RowOrder} {w w' : World} {u v : ℤ}

/-- The rows and the cache entries of `u` are the same. -/
structure World.SameFor (u : ℤ) (w w' : World) : Prop where
  rows : w'.owned u = w.owned u
  cache : ∀ k : CacheKey, k.owner = u → w'.cache k.text = w.cache k.text

namespace World.SameFor

theorem refl (u : ℤ) (w : World) : w.SameFor u w := ⟨rfl, fun _ _ => rfl⟩

theorem symm (h : w.SameFor u w') : w'.SameFor u w := ⟨h.rows.symm, fun k hk => (h.cache k hk).symm⟩

theorem trans {w'' : World} (h : w.SameFor u w') (h' : w'.SameFor u w'') : w.SameFor u w'' :=
  ⟨h'.rows.trans h.rows, fun k hk => (h'.cache k hk).trans (h.cache k hk)⟩

theorem store {k : CacheKey} {text : Bytes} (hk : k.owner ≠ u) : w.SameFor u (w.store k.text text) :=
  ⟨rfl, fun k' hk' => Function.update_of_ne (fun h => hk (by rwa [← CacheKey.text_injective h])) _ _⟩

theorem evict {k : CacheKey} (hk : k.owner ≠ u) : w.SameFor u (w.evict k.text) :=
  ⟨rfl, fun k' hk' => Function.update_of_ne (fun h => hk (by rwa [← CacheKey.text_injective h])) _ _⟩

end World.SameFor

theorem ownedBy_eq_false {r : Row} (hr : r.userId ≠ u) : r.ownedBy u = false := by
  simpa [Row.ownedBy] using hr

/-- An action for `v` is none on the rows and entries of `u`. -/
theorem World.does_sameFor {q : ServiceQuery} {past : History} {a : Action} {r : a.Ret}
    (huv : u ≠ v) (hq : q.actingUser = some v) (hguard : Guard P q a past)
    (hdoes : World.does faults order a w r w') : w.SameFor u w' := by
  have hsame (hrows : a.writes ≠ some .resources) (hcache : a.writes ≠ some .cache) :
      w.SameFor u w' := by
    have hframe := World.does_frame hdoes
    constructor
    · rw [World.owned, hframe.resources hrows]
      rfl
    · exact fun k _ => congrFun (hframe.cache hcache) k.text
  have hother {i : ℤ} {row : Row} (hrow : row.isAt v i = true) : row.ownedBy u = false :=
    ownedBy_eq_false fun h => huv (h.symm.trans (Row.isAt_iff.mp hrow).1)
  cases a with
  | redisSetex =>
    obtain ⟨k, rfl, rfl, -⟩ := hguard
    have hk : k.owner ≠ u := by
      rw [CacheKey.query_actingUser] at hq
      exact fun h => huv (h.symm.trans (Option.some.inj hq))
    obtain ⟨-, rfl⟩ | ⟨-, -, rfl | rfl⟩ := hdoes
    · exact .store hk
    · exact .refl u _
    · exact .store hk
  | redisDel =>
    obtain ⟨k, rfl, hk⟩ := hguard
    have hk : k.owner ≠ u := fun h => huv (h.symm.trans (Option.some.inj (hk.symm.trans hq)))
    obtain ⟨-, rfl⟩ | ⟨-, -, rfl | rfl⟩ := hdoes
    · exact .evict hk
    · exact .refl u _
    · exact .evict hk
  | insertResource =>
    obtain ⟨info, rfl, rfl, rfl, rfl⟩ := hguard
    obtain ⟨-, id, hnext, hpos, hmax, rfl⟩ | ⟨-, -, rfl⟩ := hdoes
    · exact ⟨Table.select_insert hnext hpos hmax
        (ownedBy_eq_false fun h => huv (h.symm.trans (Option.some.inj hq))), fun _ _ => rfl⟩
    · exact .refl u _
  | updateResource =>
    obtain ⟨info, rfl, rfl, rfl, rfl⟩ := hguard
    obtain rfl : info.userId = v := Option.some.inj hq
    obtain ⟨-, rfl⟩ | ⟨-, -, rfl⟩ := hdoes
    · exact ⟨Table.select_modify (by intro; rfl) fun row _ hrow => ⟨hother hrow, hother hrow⟩,
        fun _ _ => rfl⟩
    · exact .refl u _
  | deleteResource i u' =>
    obtain rfl : q = .deleteResource u' i := hguard
    obtain rfl : u' = v := Option.some.inj hq
    obtain ⟨-, rfl⟩ | ⟨-, -, rfl⟩ := hdoes
    · exact ⟨Table.select_remove fun row _ hrow => hother hrow, fun _ _ => rfl⟩
    · exact .refl u _
  | _ => exact hsame (by simp [Action.writes]) (by simp [Action.writes])

theorem sameFor_of_exec {q : ServiceQuery} {calls : History} {answer : Json} (huv : u ≠ v)
    (hq : q.actingUser = some v)
    (hexec : Prog.Exec (World.does faults order) w (serve P q) calls w' answer) : w.SameFor u w' :=
  (hexec.along (I := fun w'' _ => w.SameFor u w'') (serve_traces P q)
    (fun _ _ _ _ _ hguard h hdoes => h.trans (World.does_sameFor huv hq hguard hdoes))
    (.refl u w)).2.1

/-- Rows under a number are among those of the user. -/
theorem World.found_eq_filter (w : World) (u i : ℤ) :
    w.found u i = (w.owned u).filter fun r => r.id = i := by
  rw [World.found, World.owned, Table.select, Table.select, List.filter_filter]
  exact List.filter_congr fun r _ => Bool.and_comm _ _

/-- A read of `k` does in a world that is the same for its owner what it did. -/
theorem World.SameFor.does {k : CacheKey} {past : History} {a : Action} {r : a.Ret} {x : World}
    (h : w.SameFor k.owner x) (hmsg : ∀ d m, lastWritten d past = some m → w.msg d = x.msg d)
    (hguard : Guard P k.query a past) (hdoes : World.does faults order a w r w') :
    ∃ x', World.does faults order a x r x' ∧ w'.SameFor k.owner x' := by
  have howner {u : ℤ} (hu : k.query.actingUser = some u) : x.owned u = w.owned u := by
    rw [CacheKey.query_actingUser] at hu
    exact Option.some.inj hu ▸ h.rows
  cases a with
  | redisGet key =>
    obtain ⟨k', rfl, hk⟩ := hguard
    obtain rfl := CacheKey.query_injective hk
    obtain ⟨rfl, hvalue⟩ := hdoes
    exact ⟨x, ⟨rfl, hvalue.imp_left fun hvalue => hvalue.trans (h.cache k rfl).symm⟩, h⟩
  | redisSetex key ttl value =>
    have hstore : (w.store key value).SameFor k.owner (x.store key value) :=
      ⟨h.rows, fun k' hk' => by
        by_cases hkey : k'.text = key
        · simp [World.store, hkey]
        · simpa [World.store, hkey] using h.cache k' hk'⟩
    obtain ⟨hr, rfl⟩ | ⟨hfault, hr, rfl | rfl⟩ := hdoes
    · exact ⟨_, Or.inl ⟨hr, rfl⟩, hstore⟩
    · exact ⟨_, Or.inr ⟨hfault, hr, Or.inl rfl⟩, h⟩
    · exact ⟨_, Or.inr ⟨hfault, hr, Or.inr rfl⟩, hstore⟩
  | redisDel key =>
    have hevict : (w.evict key).SameFor k.owner (x.evict key) :=
      ⟨h.rows, fun k' hk' => by
        by_cases hkey : k'.text = key
        · simp [World.evict, hkey]
        · simpa [World.evict, hkey] using h.cache k' hk'⟩
    obtain ⟨hr, rfl⟩ | ⟨hfault, hr, rfl | rfl⟩ := hdoes
    · exact ⟨_, Or.inl ⟨hr, rfl⟩, hevict⟩
    · exact ⟨_, Or.inr ⟨hfault, hr, Or.inl rfl⟩, h⟩
    · exact ⟨_, Or.inr ⟨hfault, hr, Or.inr rfl⟩, hevict⟩
  | selectResources u =>
    obtain ⟨hr, rfl⟩ | ⟨hfault, hr, rfl⟩ := hdoes
    · exact ⟨x, Or.inl ⟨by rw [howner hguard]; exact hr, rfl⟩, h⟩
    · exact ⟨x, Or.inr ⟨hfault, hr, rfl⟩, h⟩
  | selectResource u i =>
    obtain ⟨hr, rfl⟩ | ⟨hfault, hr, rfl⟩ := hdoes
    · refine ⟨x, Or.inl ⟨?_, rfl⟩, h⟩
      rw [World.found_eq_filter, howner hguard, ← World.found_eq_filter]
      exact hr
    · exact ⟨x, Or.inr ⟨hfault, hr, rfl⟩, h⟩
  | clearMsg d =>
    obtain rfl := hdoes
    exact ⟨_, rfl, h.rows, h.cache⟩
  | assignMsg d text =>
    obtain rfl := hdoes
    exact ⟨_, rfl, h.rows, h.cache⟩
  | readMsg d =>
    obtain ⟨m, hm⟩ := Option.isSome_iff_exists.mp hguard
    obtain ⟨hr, rfl⟩ := hdoes
    exact ⟨x, ⟨hr.trans (hmsg d m hm), rfl⟩, h⟩
  | insertResource | updateResource =>
    obtain ⟨info, hq, -⟩ := hguard
    cases k <;> cases hq
  | deleteResource => cases k <;> cases hguard
  | insertUser | selectUser | createJwt =>
    obtain ⟨info, hq⟩ := hguard
    cases k <;> cases hq
  | epochMillis =>
    obtain ⟨u, filename, contentType, hq⟩ := hguard
    cases k <;> cases hq
  | presign client method bucket key expires =>
    cases method with
    | put =>
      obtain ⟨u, filename, contentType, hq, -⟩ := hguard
      cases k <;> cases hq
    | get =>
      obtain ⟨u, i, content, hq | hq, -⟩ := hguard
      all_goals cases k <;> cases hq
  | removeObject =>
    obtain ⟨u, i, content, hq | hq, -⟩ := hguard
    all_goals cases k <;> cases hq

theorem World.SameFor.read {k : CacheKey} {x : World} {calls : History} {answer : Json}
    (h : w.SameFor k.owner x)
    (hread : Prog.Exec (World.does faults order) w (serve P k.query) calls w' answer) :
    ∃ x', Prog.Exec (World.does faults order) x (serve P k.query) calls x' answer := by
  refine hread.simulate (S := World.does faults order) (serve_traces P k.query)
    (fun a w r w' x past hguard (hJ : w.SameFor k.owner x ∧ MsgsOwn w past ∧ MsgsOwn x past) hdoes => ?_)
    ⟨h, ⟨Prog.along_nil _, nofun⟩, ⟨Prog.along_nil _, nofun⟩⟩
  obtain ⟨hsame, hw, hx⟩ := hJ
  obtain ⟨x', hx', hsame'⟩ := hsame.does
    (fun d m hm => (hw.held d m hm).trans (hx.held d m hm).symm) hguard hdoes
  exact ⟨x', hx', hsame', hw.step hguard hdoes, hx.step hguard hx'⟩

/-- The requests of `v` about one resource number. -/
inductive AboutNumber (v : ℤ) : (ℤ → ServiceQuery) → Prop where
  | getResource : AboutNumber v (.getResource v)
  | getFileDownloadUrl : AboutNumber v (.getFileDownloadUrl v)
  | updateResource (title content : Bytes) (isFile : Bool) :
    AboutNumber v fun i => .updateResource ⟨i, v, title, content, isFile⟩
  | deleteResource : AboutNumber v (.deleteResource v)

/-- `v` has no row and no cache entry under `i`. -/
structure World.Absent (w : World) (v i : ℤ) : Prop where
  row : w.found v i = []
  entry : w.cache (CacheKey.resource v i).text = none

/-- An entry without a row would show none. -/
theorem World.Coherent.absent {lib : JsonLib} {i : ℤ}
    (h : w.Coherent lib order fun _ => False) (hrow : w.found v i = []) : w.Absent v i := by
  refine ⟨hrow, Option.eq_none_iff_forall_ne_some.mpr fun text htext => ?_⟩
  obtain ⟨k, hkey, hfalse | ⟨j, hj, -⟩⟩ := h _ text htext
  · exact hfalse
  · obtain rfl := CacheKey.text_injective hkey
    simp [World.direct, hrow] at hj

section Absent

variable {i j : ℤ} {t : History} {answer : Json}

theorem exec_miss {α : Type} {k : CacheKey} {f : Option Bytes → ServiceProg α} {a : α}
    (hentry : w.cache k.text = none) :
    (∃ t, Prog.Exec (World.does faults order) w (ResourceCache.get k >>= f) t w' a) ↔
      ∃ t, Prog.Exec (World.does faults order) w (f none) t w' a := by
  constructor
  · rintro ⟨t, h⟩
    obtain ⟨cached, w₁, t', ⟨rfl, hcached⟩, -, h⟩ := Prog.exec_call_iff.mp h
    obtain rfl : cached = none := hcached.elim (fun h => h.trans hentry) And.right
    exact ⟨t', h⟩
  · rintro ⟨t, h⟩
    exact ⟨_, Prog.exec_call_iff.mpr ⟨none, w, t, ⟨rfl, Or.inl hentry.symm⟩, rfl, h⟩⟩

theorem exec_clearMsg {α : Type} {d : Dao} {f : Unit → ServiceProg α} {a : α} :
    (∃ t, Prog.Exec (World.does faults order) w (clearMsg d >>= f) t w' a) ↔
      ∃ t, Prog.Exec (World.does faults order) (w.setMsg d []) (f ()) t w' a := by
  constructor
  · rintro ⟨t, h⟩
    obtain ⟨_, w₁, t', rfl, -, h⟩ := Prog.exec_call_iff.mp h
    exact ⟨t', h⟩
  · rintro ⟨t, h⟩
    exact ⟨_, Prog.exec_call_iff.mpr ⟨(), _, t, rfl, rfl, h⟩⟩

theorem exec_failWith {α : Type} {d : Dao} {text : Bytes} {a b : α} :
    Prog.Exec (World.does faults order) w (failWith d text a) t w' b ↔
      t = [assigned d text] ∧ w' = w.setMsg d text ∧ b = a := by
  constructor
  · intro h
    obtain ⟨_, w₁, t', rfl, rfl, hend⟩ := Prog.exec_call_iff.mp h
    obtain ⟨rfl, rfl, rfl⟩ := Prog.exec_ret_iff.mp hend
    exact ⟨rfl, rfl, rfl⟩
  · rintro ⟨rfl, rfl, rfl⟩
    exact Prog.exec_call_iff.mpr ⟨(), _, [], rfl, rfl, .ret _ _⟩

theorem getResource_absent {r : Option Resource} (hi : w.found v i = []) (hj : w.found v j = [])
    (h : Prog.Exec (World.does faults order) w (ResourceDAO.getResource v i) t w' r) :
    r = none ∧ ∃ t', Prog.Exec (World.does faults order) w (ResourceDAO.getResource v j) t' w' none := by
  have hcleared (n : ℤ) (hn : w.found v n = []) : (w.setMsg .resource []).found v n = [] := hn
  obtain ⟨t₁, h⟩ := exec_clearMsg.mp ⟨t, h⟩
  obtain ⟨result, w₂, t₂, hselect, -, h⟩ := Prog.exec_call_iff.mp h
  obtain ⟨hresult, hw⟩ | ⟨hfault, ⟨f, rfl⟩, hw⟩ := hselect
  · rw [hcleared i hi] at hresult
    obtain rfl : result = Except.ok none := hresult
    obtain ⟨-, rfl, rfl⟩ := exec_failWith.mp h
    refine ⟨rfl, exec_clearMsg.mpr ⟨_, Prog.exec_call_iff.mpr ⟨Except.ok none, _, _,
      Or.inl ⟨?_, hw⟩, rfl, exec_failWith.mpr ⟨rfl, rfl, rfl⟩⟩⟩⟩
    rw [hcleared j hj]
    rfl
  · obtain ⟨-, rfl, rfl⟩ := exec_failWith.mp h
    exact ⟨rfl, exec_clearMsg.mpr ⟨_, Prog.exec_call_iff.mpr ⟨Except.error f, _, _,
      Or.inr ⟨hfault, ⟨f, rfl⟩, hw⟩, rfl, exec_failWith.mpr ⟨rfl, rfl, rfl⟩⟩⟩⟩

theorem updateResource_absent {title content : Bytes} {ok : Bool} (hi : w.found v i = [])
    (hj : w.found v j = [])
    (h : Prog.Exec (World.does faults order) w (ResourceDAO.updateResource i v title content) t w' ok) :
    ok = false ∧ ∃ t', Prog.Exec (World.does faults order) w
      (ResourceDAO.updateResource j v title content) t' w' false := by
  have hcleared (n : ℤ) (hn : w.found v n = []) : (w.setMsg .resource []).found v n = [] := hn
  obtain ⟨t₁, h⟩ := exec_clearMsg.mp ⟨t, h⟩
  obtain ⟨result, w₂, t₂, hupdate, -, h⟩ := Prog.exec_call_iff.mp h
  obtain ⟨hresult, hw⟩ | ⟨hfault, ⟨f, rfl⟩, hw⟩ := hupdate
  · rw [hcleared i hi] at hresult
    obtain rfl : result = Except.ok 0 := hresult
    obtain ⟨-, rfl, rfl⟩ := exec_failWith.mp h
    refine ⟨rfl, exec_clearMsg.mpr ⟨_, Prog.exec_call_iff.mpr ⟨Except.ok 0, w₂, _,
      Or.inl ⟨?_, ?_⟩, rfl, exec_failWith.mpr ⟨rfl, rfl, rfl⟩⟩⟩⟩
    · rw [hcleared j hj]
      rfl
    · rw [hw, World.updateRows_eq_self (hcleared i hi), World.updateRows_eq_self (hcleared j hj)]
  · obtain ⟨-, rfl, rfl⟩ := exec_failWith.mp h
    exact ⟨rfl, exec_clearMsg.mpr ⟨_, Prog.exec_call_iff.mpr ⟨Except.error f, _, _,
      Or.inr ⟨hfault, ⟨f, rfl⟩, hw⟩, rfl, exec_failWith.mpr ⟨rfl, rfl, rfl⟩⟩⟩⟩

/-- What follows a lookup that finds nothing. -/
theorem exec_of_lookup {f g : Option Resource → ServiceProg Json} (hfg : f none = g none)
    (hi : w.found v i = []) (hj : w.found v j = [])
    (h : Prog.Exec (World.does faults order) w (ResourceDAO.getResource v i >>= f) t w' answer) :
    ∃ t', Prog.Exec (World.does faults order) w (ResourceDAO.getResource v j >>= g) t' w' answer := by
  obtain ⟨t₁, w₁, r, t₂, hlookup, hrest, -⟩ := Prog.exec_bind_iff.mp h
  obtain ⟨rfl, t₁', hlookup'⟩ := getResource_absent hi hj hlookup
  exact ⟨_, Prog.exec_bind_iff.mpr ⟨t₁', w₁, none, t₂, hlookup', hfg ▸ hrest, rfl⟩⟩

/-- Without row and entry, no number answers differently from another. -/
theorem absent_alike {query : ℤ → ServiceQuery} (hquery : AboutNumber v query)
    (hi : w.Absent v i) (hj : w.Absent v j)
    (h : Prog.Exec (World.does faults order) w (serve P (query i)) t w' answer) :
    ∃ t', Prog.Exec (World.does faults order) w (serve P (query j)) t' w' answer := by
  cases hquery with
  | getResource =>
    obtain ⟨t₁, h⟩ := (exec_miss hi.entry).mp ⟨t, h⟩
    exact (exec_miss hj.entry).mpr (exec_of_lookup (by rfl) hi.row hj.row h)
  | getFileDownloadUrl => exact exec_of_lookup rfl hi.row hj.row h
  | deleteResource => exact exec_of_lookup rfl hi.row hj.row h
  | updateResource title content isFile =>
    obtain ⟨t₁, w₁, ok, t₂, hupdate, hrest, -⟩ := Prog.exec_bind_iff.mp h
    obtain ⟨rfl, t₁', hupdate'⟩ := updateResource_absent hi.row hj.row hupdate
    exact ⟨_, Prog.exec_bind_iff.mpr ⟨t₁', w₁, false, t₂, hupdate', hrest, rfl⟩⟩

end Absent

theorem World.found_eq_nil {i : ℤ} (huv : u ≠ v) (hi : ∃ row ∈ w.owned u, row.id = i) :
    w.found v i = [] := by
  obtain ⟨row, hrow, rfl⟩ := hi
  obtain ⟨hmem, howned⟩ := Table.mem_select.mp hrow
  refine List.filter_eq_nil_iff.mpr fun row' hmem' hat => huv ?_
  obtain ⟨hv, hid⟩ := Row.isAt_iff.mp hat
  have hu : row.userId = u := by simpa [Row.ownedBy] using howned
  rw [Table.eq_of_id_eq hmem hmem' hid.symm] at hu
  exact hu.symm.trans hv

/-- **Isolation.** In every state reached, a call for `v` leaves the rows and the entries of
another user `u` alone, and the next reads of `u` as they would have been; and `v` is
answered for a resource of `u` as for one that does not exist. -/
theorem tenants_isolated (P : Platform) (faults : Faults) (order : RowOrder)
    (users : Table User User.id) (objects : Set (Bytes × Bytes)) (hredis : ¬ faults.redis) (w : World)
    (hrun : Reaches (World.Step P faults order) (.initial users objects) w) (u v : ℤ) (huv : u ≠ v) :
    (∀ q calls answer w', q.actingUser = some v →
      World.Step P faults order w (.served q calls answer) w' →
      w'.owned u = w.owned u ∧
      (∀ k : CacheKey, k.owner = u → w'.cache k.text = w.cache k.text) ∧
      ∀ k : CacheKey, k.owner = u → ∀ calls answer,
        (∃ w'', World.Step P faults order w' (.served k.query calls answer) w'') ↔
          ∃ w'', World.Step P faults order w (.served k.query calls answer) w'') ∧
    ∀ query, AboutNumber v query → ∀ i j, (∃ row ∈ w.owned u, row.id = i) →
      (∀ row ∈ w.resources.rows, row.id ≠ j) → ∀ answer w',
        (∃ calls, World.Step P faults order w (.served (query i) calls answer) w') ↔
          ∃ calls, World.Step P faults order w (.served (query j) calls answer) w' := by
  constructor
  · rintro q calls answer w' hq ⟨hexec⟩
    have hsame := sameFor_of_exec huv hq hexec
    refine ⟨hsame.rows, hsame.cache, fun k hk calls answer => ?_⟩
    subst hk
    constructor
    · rintro ⟨w'', ⟨hread⟩⟩
      obtain ⟨x, hread⟩ := hsame.symm.read hread
      exact ⟨x, .served hread⟩
    · rintro ⟨w'', ⟨hread⟩⟩
      obtain ⟨x, hread⟩ := hsame.read hread
      exact ⟨x, .served hread⟩
  · intro query hquery i j hi hj answer w'
    have hcoherent := coherent_of_reaches hredis hrun
    have habsent := hcoherent.absent (World.found_eq_nil huv hi)
    have habsent' : w.Absent v j := hcoherent.absent <|
      List.filter_eq_nil_iff.mpr fun row hmem hat => hj row hmem (Row.isAt_iff.mp hat).2
    constructor
    · rintro ⟨calls, ⟨hexec⟩⟩
      obtain ⟨calls, hexec⟩ := absent_alike hquery habsent habsent' hexec
      exact ⟨calls, .served hexec⟩
    · rintro ⟨calls, ⟨hexec⟩⟩
      obtain ⟨calls, hexec⟩ := absent_alike hquery habsent' habsent hexec
      exact ⟨calls, .served hexec⟩

/-- A request for user 2 has been told that there is no such resource. -/
def notFound : World :=
  (oneResource.setMsg .resource []).setMsg .resource (ascii "Resource not found.")

theorem foreign_isolated : notFound.owned 1 = oneResource.owned 1 ∧
    ∃ calls, World.Step listing .never ⟨id, fun _ => .refl _⟩ oneResource
      (.served (.deleteResource 2 7) calls (.error (ascii "Resource not found."))) notFound := by
  have hcreate : Prog.Exec (World.does .never ⟨id, fun _ => .refl _⟩)
      (.initial (.empty User User.id) ∅)
      (serve listing (.createResource ⟨0, 1, ascii "note", ascii "text", false⟩)) _ oneResource _ :=
    Prog.exec_call_iff.mpr ⟨(), _, _, rfl, rfl,
      .call (Or.inl ⟨rfl, 1, by decide, by decide, by decide, rfl⟩)
        (.call (Or.inl ⟨rfl, rfl⟩) (.ret _ _))⟩
  have hdelete : Prog.Exec (World.does .never ⟨id, fun _ => .refl _⟩) oneResource
      (serve listing (.deleteResource 2 1)) _ notFound (.error (ascii "Resource not found.")) :=
    Prog.exec_call_iff.mpr ⟨(), _, _, rfl, rfl,
      Prog.exec_call_iff.mpr ⟨Except.ok none, _, _, Or.inl ⟨rfl, rfl⟩, rfl,
        Prog.exec_call_iff.mpr ⟨(), _, _, rfl, rfl, .call ⟨rfl, rfl⟩ (.ret _ _)⟩⟩⟩
  have hisolated := tenants_isolated listing .never ⟨id, fun _ => .refl _⟩ (.empty User User.id) ∅ id
    oneResource (Runs.snoc .refl (.served hcreate) trivial) 1 2 (by decide)
  refine ⟨(hisolated.1 _ _ _ _ rfl (.served hdelete)).1,
    (hisolated.2 _ .deleteResource 1 7 ?_ ?_ _ _).mp ⟨_, .served hdelete⟩⟩
  · exact ⟨⟨1, 1, ascii "note", ascii "text", false⟩, by decide, rfl⟩
  · decide

end Service
end ResourceServer
