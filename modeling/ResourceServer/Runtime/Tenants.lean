import ResourceServer.Runtime.Backend

/-!
# Users of one backend

Whoever holds no token for a user can neither change nor learn what that user has stored: over
any number of connections, with any bytes, in any interleaving of the workers. Learning is
stated with two worlds that differ in the user's rows and entries only: a run from one is a run
from the other, with the same bytes on every connection.
-/

namespace ResourceServer

namespace Table

open CString

variable {ρ : Type} {id : ρ → ℤ} {t : Table ρ id} {p q : ρ → Bool}

/-- A row that stays in or out of a selection is changed in it. -/
theorem select_modify_map {f : ρ → ρ} (hf : ∀ r, id (f r) = id r) (hq : ∀ r, q (f r) = q r) :
    (t.modify p f hf).select q = (t.select q).map fun r => if p r then f r else r := by
  unfold select modify
  dsimp only
  induction t.rows with
  | nil => rfl
  | cons r rows ih =>
    have hkept : q (if p r then f r else r) = q r := by
      cases p r
      · rfl
      · exact hq r
    rw [List.map_cons, List.filter_cons, List.filter_cons, hkept, ih]
    cases q r <;> rfl

theorem select_remove_filter : (t.remove p).select q = (t.select q).filter fun r => !p r := by
  unfold select remove
  rw [List.filter_filter, List.filter_filter]
  exact List.filter_congr fun r _ => Bool.and_comm _ _

theorem select_insert_append {r : ρ} (hnext : t.nextId ≤ id r) (hpos : 0 < id r) (hmax : id r ≤ intMax) :
    (t.insert r hnext hpos hmax).select q = t.select q ++ [r].filter q :=
  List.filter_append t.rows [r]

end Table

namespace Service

open CString

variable {P : Platform} {faults : Faults} {order : RowOrder} {w w' : World} {u : ℤ}

/-- An action that is not for `u` is none on the rows and entries of `u`. -/
theorem World.does_foreign {q : ServiceQuery} {past : History} {a : Action} {r : a.Ret}
    (hq : q.actingUser ≠ some u) (hguard : Guard P q a past)
    (hdoes : World.doesShared faults order a w r w') : w.SameFor u w' := by
  rcases World.does_of_doesShared hdoes with hdoes | ⟨d, rfl, rfl⟩
  · cases hv : q.actingUser with
    | some v =>
      rw [hv] at hq
      exact World.does_sameFor (fun huv => hq (by rw [huv])) hv hguard hdoes
    | none =>
      have hframe := World.does_frame hdoes
      have hwrites : a.writes ≠ some .resources ∧ a.writes ≠ some .cache := by
        cases a with
        | redisSetex =>
          obtain ⟨k, -, rfl, -⟩ := hguard
          cases (CacheKey.query_actingUser k).symm.trans hv
        | redisDel =>
          obtain ⟨k, -, hk⟩ := hguard
          cases hk.symm.trans hv
        | insertResource | updateResource =>
          obtain ⟨info, rfl, -⟩ := hguard
          cases hv
        | deleteResource =>
          obtain rfl := hguard
          cases hv
        | _ => exact ⟨by simp [Action.writes], by simp [Action.writes]⟩
      refine ⟨?_, fun k _ => congrFun (hframe.cache hwrites.2) k.text⟩
      rw [World.owned, hframe.resources hwrites.1]
      rfl
  · exact .refl u _

/-- The rows of `u` are the same, and no entry of `u` is new. -/
structure World.Untouched (u : ℤ) (w w' : World) : Prop where
  rows : w'.owned u = w.owned u
  cache : ∀ k : CacheKey, k.owner = u → w'.cache k.text = w.cache k.text ∨ w'.cache k.text = none

theorem World.Untouched.refl (u : ℤ) (w : World) : w.Untouched u w := ⟨rfl, fun _ _ => Or.inl rfl⟩

theorem World.Untouched.trans_same {w'' : World} (h : w.Untouched u w') (h' : w'.SameFor u w'') :
    w.Untouched u w'' := by
  refine ⟨h'.rows.trans h.rows, fun k hk => ?_⟩
  rw [h'.cache k hk]
  exact h.cache k hk

theorem World.Untouched.evict (h : w.Untouched u w') (key : Bytes) : w.Untouched u (w'.evict key) := by
  refine ⟨h.rows, fun k hk => ?_⟩
  by_cases hkey : k.text = key
  · subst hkey
    exact Or.inr (Function.update_self ..)
  · have hsame : (w'.evict key).cache k.text = w'.cache k.text := Function.update_of_ne hkey _ _
    rw [hsame]
    exact h.cache k hk

/-- The worlds differ in the rows of `u`, in the entries of `u`, and in messages and objects. -/
structure World.AlikeBut (u : ℤ) (w x : World) : Prop where
  rows : ∀ v, v ≠ u → x.owned v = w.owned v
  nextId : x.resources.nextId = w.resources.nextId
  users : x.users = w.users
  cache : ∀ key, (∀ k : CacheKey, k.owner = u → key ≠ k.text) → x.cache key = w.cache key

namespace World.AlikeBut

variable {x : World} (h : w.AlikeBut u x)

include h

theorem found {v : ℤ} (hv : v ≠ u) (i : ℤ) : x.found v i = w.found v i := by
  rw [World.found_eq_filter, World.found_eq_filter, h.rows v hv]

theorem cache_of_ne {k : CacheKey} (hk : k.owner ≠ u) : x.cache k.text = w.cache k.text := by
  refine h.cache k.text fun k' hk' htext => hk ?_
  rw [CacheKey.text_injective htext, hk']

theorem update (key : Bytes) (value : Option Bytes) :
    World.AlikeBut u { w with cache := Function.update w.cache key value }
      { x with cache := Function.update x.cache key value } := by
  refine ⟨h.rows, h.nextId, h.users, fun key' hkey' => ?_⟩
  by_cases hkey : key' = key
  · subst hkey
    change Function.update x.cache key' value key' = Function.update w.cache key' value key'
    rw [Function.update_self, Function.update_self]
  · have hx : Function.update x.cache key value key' = x.cache key' := Function.update_of_ne hkey _ _
    have hw : Function.update w.cache key value key' = w.cache key' := Function.update_of_ne hkey _ _
    exact (hx.trans (h.cache key' hkey')).trans hw.symm

theorem updateRows (title content : Bytes) (v i : ℤ) :
    World.AlikeBut u (w.updateRows title content v i) (x.updateRows title content v i) := by
  have howned (y : World) (v' : ℤ) : (y.updateRows title content v i).owned v' =
      (y.owned v').map fun r => if r.isAt v i then { r with title := title, content := content } else r :=
    Table.select_modify_map (by intro; rfl) (by intro; rfl)
  refine ⟨fun v' hv' => ?_, h.nextId, h.users, h.cache⟩
  rw [howned, howned, h.rows v' hv']

theorem deleteRows (v i : ℤ) : World.AlikeBut u (w.deleteRows v i) (x.deleteRows v i) := by
  have howned (y : World) (v' : ℤ) : (y.deleteRows v i).owned v' =
      (y.owned v').filter fun r => !r.isAt v i := Table.select_remove_filter
  refine ⟨fun v' hv' => ?_, h.nextId, h.users, h.cache⟩
  rw [howned, howned, h.rows v' hv']

theorem insertRow {r : Row} (hnext : w.resources.nextId ≤ r.id) (hnext' : x.resources.nextId ≤ r.id)
    (hpos : 0 < r.id) (hmax : r.id ≤ intMax) :
    World.AlikeBut u (w.insertRow r hnext hpos hmax) (x.insertRow r hnext' hpos hmax) := by
  refine ⟨fun v hv => ?_, rfl, h.users, h.cache⟩
  have hw : (w.insertRow r hnext hpos hmax).owned v = w.owned v ++ [r].filter (·.ownedBy v) :=
    Table.select_insert_append hnext hpos hmax
  have hx : (x.insertRow r hnext' hpos hmax).owned v = x.owned v ++ [r].filter (·.ownedBy v) :=
    Table.select_insert_append hnext' hpos hmax
  rw [hw, hx, h.rows v hv]

/-- An action that is not for `u` does the same in both. -/
theorem does {q : ServiceQuery} {past : History} {a : Action} {r : a.Ret} (hq : q.actingUser ≠ some u)
    (hguard : Guard P q a past) (hdoes : World.doesShared faults order a w r w') :
    ∃ x', World.doesShared faults order a x r x' ∧ w'.AlikeBut u x' := by
  have hother {v : ℤ} (hv : q.actingUser = some v) : v ≠ u := by
    rintro rfl
    exact hq hv
  have hentry {k : CacheKey} (hk : q = k.query) : k.owner ≠ u :=
    hother (hk ▸ CacheKey.query_actingUser k)
  cases a with
  | redisGet key =>
    obtain ⟨k, rfl, hk⟩ := hguard
    obtain ⟨rfl, hvalue⟩ := hdoes
    refine ⟨x, ⟨rfl, ?_⟩, h⟩
    rw [h.cache_of_ne (hentry hk)]
    exact hvalue
  | redisSetex key ttl value =>
    obtain ⟨hok, rfl⟩ | ⟨hfault, hok, rfl | rfl⟩ := hdoes
    · exact ⟨_, Or.inl ⟨hok, rfl⟩, h.update key (some value)⟩
    · exact ⟨_, Or.inr ⟨hfault, hok, Or.inl rfl⟩, h⟩
    · exact ⟨_, Or.inr ⟨hfault, hok, Or.inr rfl⟩, h.update key (some value)⟩
  | redisDel key =>
    obtain ⟨hok, rfl⟩ | ⟨hfault, hok, rfl | rfl⟩ := hdoes
    · exact ⟨_, Or.inl ⟨hok, rfl⟩, h.update key none⟩
    · exact ⟨_, Or.inr ⟨hfault, hok, Or.inl rfl⟩, h⟩
    · exact ⟨_, Or.inr ⟨hfault, hok, Or.inr rfl⟩, h.update key none⟩
  | insertResource v title content isFile =>
    obtain ⟨hok, id, hnext, hpos, hmax, rfl⟩ | ⟨hfault, herror, rfl⟩ := hdoes
    · have hnext' : x.resources.nextId ≤ id := by
        rw [h.nextId]
        exact hnext
      exact ⟨_, Or.inl ⟨hok, id, hnext', hpos, hmax, rfl⟩, h.insertRow hnext hnext' hpos hmax⟩
    · exact ⟨x, Or.inr ⟨hfault, herror, rfl⟩, h⟩
  | selectResources v =>
    obtain ⟨hok, rfl⟩ | ⟨hfault, herror, rfl⟩ := hdoes
    · refine ⟨x, Or.inl ⟨?_, rfl⟩, h⟩
      rw [h.rows v (hother hguard)]
      exact hok
    · exact ⟨x, Or.inr ⟨hfault, herror, rfl⟩, h⟩
  | selectResource v i =>
    obtain ⟨hok, rfl⟩ | ⟨hfault, herror, rfl⟩ := hdoes
    · refine ⟨x, Or.inl ⟨?_, rfl⟩, h⟩
      rw [h.found (hother hguard)]
      exact hok
    · exact ⟨x, Or.inr ⟨hfault, herror, rfl⟩, h⟩
  | updateResource title content v i =>
    obtain ⟨info, rfl, rfl, rfl, rfl⟩ := hguard
    obtain ⟨hok, rfl⟩ | ⟨hfault, herror, rfl⟩ := hdoes
    · refine ⟨_, Or.inl ⟨?_, rfl⟩, h.updateRows title (cstr info.content) info.userId info.id⟩
      rw [h.found (hother rfl)]
      exact hok
    · exact ⟨x, Or.inr ⟨hfault, herror, rfl⟩, h⟩
  | deleteResource i v =>
    obtain rfl := hguard
    obtain ⟨hok, rfl⟩ | ⟨hfault, herror, rfl⟩ := hdoes
    · refine ⟨_, Or.inl ⟨?_, rfl⟩, h.deleteRows v i⟩
      rw [h.found (hother rfl)]
      exact hok
    · exact ⟨x, Or.inr ⟨hfault, herror, rfl⟩, h⟩
  | insertUser name email password =>
    obtain ⟨hok, hnew, id, hnext, hpos, hmax, rfl⟩ | ⟨hfault, herror, rfl⟩ := hdoes
    · have hnew' : ∀ user ∈ x.users.rows, user.email ≠ email := by
        rw [h.users]
        exact hnew
      have hnext' : x.users.nextId ≤ id := by
        rw [h.users]
        exact hnext
      refine ⟨_, Or.inl ⟨hok, hnew', id, hnext', hpos, hmax, rfl⟩, h.rows, h.nextId, ?_, h.cache⟩
      refine Table.ext ?_ rfl
      change x.users.rows ++ _ = w.users.rows ++ _
      rw [h.users]
    · exact ⟨x, Or.inr ⟨hfault, herror, rfl⟩, h⟩
  | selectUser email =>
    obtain ⟨hok, rfl⟩ | ⟨hfault, herror, rfl⟩ := hdoes
    · refine ⟨x, Or.inl ⟨?_, rfl⟩, h⟩
      rw [h.users]
      exact hok
    · exact ⟨x, Or.inr ⟨hfault, herror, rfl⟩, h⟩
  | clearMsg d | assignMsg d =>
    obtain rfl := hdoes
    exact ⟨_, rfl, h.rows, h.nextId, h.users, h.cache⟩
  | readMsg d | epochMillis | createJwt =>
    obtain rfl := hdoes
    exact ⟨x, rfl, h⟩
  | presign =>
    obtain ⟨hresult, rfl⟩ := hdoes
    exact ⟨x, ⟨hresult, rfl⟩, h⟩
  | removeObject client bucket key =>
    obtain ⟨hok, rfl⟩ | ⟨hfault, herror, rfl⟩ := hdoes
    · exact ⟨_, Or.inl ⟨hok, rfl⟩, h.rows, h.nextId, h.users, h.cache⟩
    · exact ⟨x, Or.inr ⟨hfault, herror, rfl⟩, h⟩

end World.AlikeBut
end Service

namespace Runtime

open Http Service

namespace Backend

variable {κ : Type} [DecidableEq κ] [Fintype κ] {P : Platform} {checks : Bytes → Option ℤ → Prop}
  {faults : Faults} {order : RowOrder} {maxFd maxRequests : ℕ} {u : ℤ}

/-- No handler is called with a token for `u`. -/
def Without (checks : Bytes → Option ℤ → Prop) (u : ℤ) : Move κ → Prop
  | .call _ r => ¬ checks r.token (some u)
  | _ => True

/-- No job holds a token for `u`. -/
def Foreign (checks : Bytes → Option ℤ → Prop) (u : ℤ) (s : Backend κ) : Prop :=
  ∀ k job, s.jobs k = some job → ¬ checks job.request.token (some u)

variable {s s' : Backend κ} {m : Move κ}

omit [Fintype κ] in
theorem Foreign.step (h : s.Foreign checks u) (hm : Without checks u m)
    (hstep : Step P checks faults order maxFd maxRequests s m s') : s'.Foreign checks u := by
  cases hstep with
  | server | expire => exact h
  | call =>
    refine forall_setJob (fun j x _ hx => h j x hx) ?_
    rintro _ ⟨⟩
    exact hm
  | @act k job e w' task' hjob htask =>
    refine forall_setJob (fun j x _ hx => h j x hx) ?_
    rintro _ ⟨⟩
    exact h k job hjob
  | answer | unanswered => exact forall_setJob (fun j x _ hx => h j x hx) (by rintro _ ⟨⟩)

omit [DecidableEq κ] in
theorem Sound.guarded (h : s.Sound P checks) {k : κ} {job : Job} (hjob : s.jobs k = some job)
    {e : Event actions} {w' : World} {task' : Task services actions HandlerResult}
    (htask : Task.Step (serviceLayer P checks) (World.doesShared faults order) (s.world, job.task)
      (some e) (w', task')) :
    ∃ q past, (∀ v, q.actingUser = some v → checks job.request.token (some v)) ∧ Guard P q e.op past := by
  have hkeeps := h.keeps k job hjob
  obtain ⟨op, past, hallowed, hguard⟩ := hkeeps.guards htask
  cases op with
  | getUserIdFromToken token => exact hguard.elim
  | ask q =>
    obtain ⟨⟨user, hpast, huser⟩, -⟩ := hallowed
    refine ⟨q, past, fun v hv => ?_, hguard⟩
    have hcheck : (⟨.getUserIdFromToken job.request.token, some v⟩ : Event services) ∈ job.task.past := by
      rw [hpast, huser v hv]
      exact List.mem_singleton.mpr rfl
    obtain ⟨d, hd, hevent⟩ := List.mem_map.mp hcheck
    cases hkeeps.ended d hd with
    | @atomic op r hbody hr =>
      cases hevent
      exact hr
    | @body op r past hbody hr =>
      cases hevent
      exact absurd rfl hbody

/-- What a step does to the stores is nothing, an action that is not for `u`, or an expiry. -/
theorem Foreign.moves (hsound : s.Sound P checks) (h : s.Foreign checks u)
    (hstep : Step P checks faults order maxFd maxRequests s m s') :
    s'.world = s.world ∨ (∃ key, s'.world = s.world.evict key) ∨
      ∃ q past, ∃ e : Event actions, q.actingUser ≠ some u ∧ Guard P q e.op past ∧
        World.doesShared faults order e.op s.world e.result s'.world := by
  cases hstep with
  | server | call | answer | unanswered => exact Or.inl rfl
  | expire key => exact Or.inr (Or.inl ⟨key, rfl⟩)
  | @act k job e w' task' hjob htask =>
    rcases htask.shared with ⟨-, hw, -⟩ | ⟨e, rfl, hdoes, -⟩
    · exact Or.inl hw
    · obtain ⟨q, past, hq, hguard⟩ := hsound.guarded hjob htask
      exact Or.inr (Or.inr ⟨q, past, e, fun hu => h k job hjob (hq u hu), hguard, hdoes⟩)

/-- **Nobody else changes what a user has stored.** As long as no request comes with a token for
`u`, the rows of `u` stay as they are, and so do the entries of `u`, until they expire. -/
theorem stranger_harmless {others : Finset ℕ} {w : World}
    (hrun : Runs (Step P checks faults order maxFd maxRequests) (fun _ m => Without checks u m)
      (start others w) s) :
    s.world.owned u = w.owned u ∧ ∀ k : CacheKey, k.owner = u →
      s.world.cache k.text = w.cache k.text ∨ s.world.cache k.text = none := by
  have hkept : s.Sound P checks ∧ s.Foreign checks u ∧ w.Untouched u s.world := by
    refine hrun.invariant (I := fun s : Backend κ =>
      s.Sound P checks ∧ s.Foreign checks u ∧ w.Untouched u s.world) ?_ ?_
    · rintro s m s' ⟨hsound, hforeign, hw⟩ hm hstep
      refine ⟨hsound.step hstep, hforeign.step hm hstep, ?_⟩
      rcases hforeign.moves hsound hstep with hsame | ⟨key, hevict⟩ | ⟨q, past, e, hq, hguard, hdoes⟩
      · rw [hsame]
        exact hw
      · rw [hevict]
        exact hw.evict key
      · exact hw.trans_same (World.does_foreign hq hguard hdoes)
    · refine ⟨.start others w, ?_, .refl u w⟩
      intro k job hjob
      cases hjob
  exact ⟨hkept.2.2.rows, hkept.2.2.cache⟩

theorem listJob_without : Without sevens 1 (.call () listJob) :=
  (by decide : ¬ some (1 : ℤ) = if ascii "t" = ascii "t" then some 7 else none)

theorem listed_harmless : ∃ s : Backend Unit,
    s.world.cache (CacheKey.list 7).text = some emptyList ∧ s.world.owned 1 = oneResource.owned 1 := by
  obtain ⟨s, hrun, hcached, -⟩ := exists_listed (C := fun _ m => Without sevens 1 m) (fun _ _ => trivial)
    (fun _ => listJob_without) (fun _ _ => trivial) fun _ => trivial
  exact ⟨s, hcached, (stranger_harmless hrun).1⟩

/-- The backends differ in what `u` has stored. -/
structure SameBut (u : ℤ) (s t : Backend κ) : Prop where
  server : t.server = s.server
  jobs : t.jobs = s.jobs
  world : s.world.AlikeBut u t.world

theorem task_step_shared {L : Layer services actions} {R : Env actions World} {w w' x x' : World}
    {t t' : Task services actions HandlerResult} {l : Option (Event actions)}
    (hstep : Task.Step L R (w, t) l (w', t')) (hnone : l = none → x' = x)
    (hsome : ∀ e, l = some e → R e.op x e.result x') : Task.Step L R (x, t) l (x', t') := by
  cases hstep with
  | atomic hbody hr =>
    rw [hnone rfl]
    exact .atomic hbody hr
  | enter hbody =>
    rw [hnone rfl]
    exact .enter hbody
  | act => exact .act (hsome _ rfl)
  | leave =>
    rw [hnone rfl]
    exact .leave

theorem SameBut.step {t : Backend κ} (h : SameBut u s t) (hsound : s.Sound P checks)
    (hforeign : s.Foreign checks u) (hstep : Step P checks faults order maxFd maxRequests s m s') :
    ∃ t', Step P checks faults order maxFd maxRequests t m t' ∧ SameBut u s' t' := by
  obtain ⟨server, world, jobs⟩ := s
  obtain ⟨server', x, jobs'⟩ := t
  obtain ⟨rfl, rfl, hworld⟩ := h
  cases hstep with
  | server hserver hidle => exact ⟨_, .server hserver hidle, rfl, rfl, hworld⟩
  | call hk hstage hparse hjob => exact ⟨_, .call hk hstage hparse hjob, rfl, rfl, hworld⟩
  | answer hk hjob hwrite => exact ⟨_, .answer hk hjob hwrite, rfl, rfl, hworld⟩
  | unanswered hk hjob hwrite => exact ⟨_, .unanswered hk hjob hwrite, rfl, rfl, hworld⟩
  | expire key => exact ⟨_, .expire key, rfl, rfl, hworld.update key none⟩
  | @act k job e w' task' hjob htask =>
    rcases htask.shared with ⟨rfl, rfl, -⟩ | ⟨e, rfl, hdoes, -⟩
    · exact ⟨_, .act hjob (task_step_shared htask (fun _ => rfl) nofun), rfl, rfl, hworld⟩
    · obtain ⟨q, past, hq, hguard⟩ := hsound.guarded hjob htask
      obtain ⟨x', hx', hworld'⟩ := hworld.does (fun hu => hforeign k job hjob (hq u hu)) hguard hdoes
      have htask' : Task.Step (serviceLayer P checks) (World.doesShared faults order)
          (x, job.task) (some e) (x', task') := task_step_shared htask nofun (by rintro _ ⟨⟩; exact hx')
      exact ⟨_, .act hjob htask', rfl, rfl, hworld'⟩

/-- A run goes on alike. -/
def Alike (P : Platform) (checks : Bytes → Option ℤ → Prop) (u : ℤ) (s t : Backend κ) : Prop :=
  s.Sound P checks ∧ s.Foreign checks u ∧ SameBut u s t

theorem Alike.step {t : Backend κ} (hm : Without checks u m) (h : Alike P checks u s t)
    (hstep : Step P checks faults order maxFd maxRequests s m s') :
    ∃ t', Step P checks faults order maxFd maxRequests t m t' ∧ Alike P checks u s' t' := by
  obtain ⟨hsound, hforeign, hsame⟩ := h
  obtain ⟨t', ht', hsame'⟩ := hsame.step hsound hforeign hstep
  exact ⟨t', ht', hsound.step hstep, hforeign.step hm hstep, hsame'⟩

/-- **Nobody else learns what a user has stored.** A run in which no request comes with a token for
`u` is possible whatever `u` has stored, step by step, with the same connections and the same
answers. -/
theorem stranger_blind {others : Finset ℕ} {w x : World} (hworlds : w.AlikeBut u x) {moves : List (Move κ)}
    (hrun : Path (Step P checks faults order maxFd maxRequests) (start others w) moves s)
    (hmoves : ∀ m ∈ moves, Without checks u m) :
    ∃ t, Path (Step P checks faults order maxFd maxRequests) (start others x) moves t ∧
      t.server = s.server ∧ t.jobs = s.jobs := by
  have hstart : Alike P checks u (start others w : Backend κ) (start others x) := by
    refine ⟨.start others w, ?_, rfl, rfl, hworlds⟩
    intro k job hjob
    cases hjob
  obtain ⟨t, hpath, -, -, hsame⟩ := hrun.simulate (fun _ _ _ _ hm h hstep => h.step hm hstep) hmoves hstart
  exact ⟨t, hpath, hsame.server, hsame.jobs⟩

/-- User 1 may have stored nothing. -/
theorem oneResource_alike : oneResource.AlikeBut 1 (oneResource.deleteRows 1 1) := by
  refine ⟨fun v hv => ?_, rfl, rfl, fun _ _ => rfl⟩
  refine Table.select_remove fun row _ hrow => ?_
  rw [(Row.isAt_iff.mp hrow).1.symm] at hv
  simpa [Row.ownedBy] using hv.symm

theorem listed_blind : ∃ s t : Backend Unit, ∃ moves,
    Path (Step listing sevens .never ⟨id, fun _ => .refl _⟩ 4096 10000) (start ∅ (oneResource.deleteRows 1 1))
      moves t ∧ t.server = s.server ∧ (s.server.users 5).answers.length = 1 := by
  obtain ⟨s, hrun, -, hanswers, -⟩ := exists_listed (C := fun _ m => Without sevens 1 m) (fun _ _ => trivial)
    (fun _ => listJob_without) (fun _ _ => trivial) fun _ => trivial
  obtain ⟨moves, hpath, hmoves⟩ := hrun.exists_path
  obtain ⟨t, ht, hserver, -⟩ := stranger_blind oneResource_alike hpath hmoves
  exact ⟨s, t, moves, ht, hserver, hanswers⟩

end Backend
end Runtime
end ResourceServer
