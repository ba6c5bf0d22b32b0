import ResourceServer.Service.Calls

/-!
# Cache coherence

The JSON a cache entry should hold is a function of the table. An action keeps every
entry so, except under the keys whose rows it changes, which its call then owes an
invalidation. Of calls served one after another nothing stays owed, and answers from the
cache are answers from the table.
-/

namespace ResourceServer
namespace Service

open CString

variable (lib : JsonLib) (order : RowOrder)

/-- The answer built directly from the current rows. -/
def World.direct (w : World) : CacheKey → Option Json
  | .resource u i => (w.found u i).head?.map fun r => r.resource.json
  | .list u => some (Resource.listJson ((order.sort (w.owned u)).map Row.resource))

/-- `text` is the JSON of the rows under `k`. -/
def World.Shows (w : World) (k : CacheKey) (text : Bytes) : Prop :=
  ∃ j, w.direct order k = some j ∧ lib.dump j = some text

/-- Every cache entry shows its rows, or its invalidation is owed. -/
def World.Coherent (w : World) (owing : CacheKey → Prop) : Prop :=
  ∀ key text, w.cache key = some text → ∃ k : CacheKey, key = k.text ∧
    (owing k ∨ w.Shows lib order k text)

variable {lib order} {faults : Faults} {w w' : World} {a : Action} {r : a.Ret}

theorem isAt_eq_false_of_key {u i u' i' : ℤ} (hne : CacheKey.resource u' i' ≠ .resource u i) {r : Row}
    (h : r.isAt u i = true) : r.isAt u' i' = false := by
  rw [Bool.eq_false_iff]
  intro h'
  obtain ⟨rfl, rfl⟩ := Row.isAt_iff.mp h
  obtain ⟨rfl, rfl⟩ := Row.isAt_iff.mp h'
  exact hne rfl

theorem ownedBy_eq_false_of_key {u i u' : ℤ} (hne : CacheKey.list u' ≠ .list u) {r : Row}
    (h : r.isAt u i = true) : r.ownedBy u' = false := by
  rw [Bool.eq_false_iff]
  intro h'
  obtain ⟨rfl, -⟩ := Row.isAt_iff.mp h
  simp only [Row.ownedBy, decide_eq_true_eq] at h'
  exact hne (h' ▸ rfl)

/-- Updating the rows at `u`, `i` shows elsewhere nothing. -/
theorem direct_updateRows {title content : Bytes} {u i : ℤ} {k : CacheKey}
    (h1 : k ≠ .resource u i) (h2 : k ≠ .list u) :
    (w.updateRows title content u i).direct order k = w.direct order k := by
  cases k with
  | resource u' i' =>
    have : (w.updateRows title content u i).found u' i' = w.found u' i' :=
      Table.select_modify (by intro; rfl) fun r _ hr =>
        ⟨isAt_eq_false_of_key h1 hr, isAt_eq_false_of_key h1 hr⟩
    simp only [World.direct, this]
  | list u' =>
    have : (w.updateRows title content u i).owned u' = w.owned u' :=
      Table.select_modify (by intro; rfl) fun r _ hr =>
        ⟨ownedBy_eq_false_of_key h2 hr, ownedBy_eq_false_of_key h2 hr⟩
    simp only [World.direct, this]

theorem direct_deleteRows {u i : ℤ} {k : CacheKey} (h1 : k ≠ .resource u i) (h2 : k ≠ .list u) :
    (w.deleteRows u i).direct order k = w.direct order k := by
  cases k with
  | resource u' i' =>
    have : (w.deleteRows u i).found u' i' = w.found u' i' :=
      Table.select_remove fun r _ hr => isAt_eq_false_of_key h1 hr
    simp only [World.direct, this]
  | list u' =>
    have : (w.deleteRows u i).owned u' = w.owned u' :=
      Table.select_remove fun r _ hr => ownedBy_eq_false_of_key h2 hr
    simp only [World.direct, this]

theorem direct_insertRow {row : Row} {hnext : w.resources.nextId ≤ row.id} {hpos : 0 < row.id}
    {hmax : row.id ≤ intMax} {k : CacheKey} (h : k ≠ .list row.userId) {j : Json}
    (hj : w.direct order k = some j) :
    (w.insertRow row hnext hpos hmax).direct order k = some j := by
  cases k with
  | resource u i =>
    have hne : row.isAt u i = false := by
      rw [Bool.eq_false_iff]
      intro hat
      obtain ⟨-, rfl⟩ := Row.isAt_iff.mp hat
      obtain ⟨r, hr, -⟩ := Option.map_eq_some_iff.mp hj
      obtain ⟨hmem, hr⟩ := Table.mem_select.mp (List.mem_of_mem_head? (Option.mem_def.mpr hr))
      have := (w.resources.ids r hmem).2
      have := (Row.isAt_iff.mp hr).2
      omega
    have : (w.insertRow row hnext hpos hmax).found u i = w.found u i :=
      Table.select_insert hnext hpos hmax hne
    simpa only [World.direct, this] using hj
  | list u =>
    have hne : row.ownedBy u = false := by
      rw [Bool.eq_false_iff]
      intro howned
      simp only [Row.ownedBy, decide_eq_true_eq] at howned
      exact h (howned ▸ rfl)
    have : (w.insertRow row hnext hpos hmax).owned u = w.owned u :=
      Table.select_insert hnext hpos hmax hne
    simpa only [World.direct, this] using hj

theorem direct_of_resources (h : w'.resources = w.resources) (k : CacheKey) :
    w'.direct order k = w.direct order k := by
  cases k <;> simp only [World.direct, World.found, World.owned, h]

theorem World.Shows.step {k : CacheKey} {text : Bytes} (h : w.Shows lib order k text)
    (hdoes : World.does faults order a w r w') (hchange : ¬ Changes k ⟨a, r⟩) :
    w'.Shows lib order k text := by
  obtain ⟨j, hj, htext⟩ := h
  refine ⟨j, ?_, htext⟩
  cases hwrites : a.writesRows with
  | false => rwa [direct_of_resources (World.does_resources hdoes hwrites)]
  | true =>
    cases a with
    | insertResource u title content isFile =>
      obtain ⟨hr, id, hnext, hpos, hmax, rfl⟩ | ⟨-, -, rfl⟩ := hdoes
      · exact direct_insertRow (fun hk => hchange ⟨hr, hk⟩) hj
      · exact hj
    | updateResource title content u i =>
      obtain ⟨hr, rfl⟩ | ⟨-, -, rfl⟩ := hdoes
      · cases hfound : w.found u i with
        | nil => rwa [World.updateRows_eq_self hfound]
        | cons row rows =>
          rw [hfound] at hr
          rwa [direct_updateRows (fun hk => hchange ⟨⟨_, hr⟩, Or.inl hk⟩)
            fun hk => hchange ⟨⟨_, hr⟩, Or.inr hk⟩]
      · exact hj
    | deleteResource i u =>
      obtain ⟨hr, rfl⟩ | ⟨-, -, rfl⟩ := hdoes
      · cases hfound : w.found u i with
        | nil => rwa [World.deleteRows_eq_self hfound]
        | cons row rows =>
          rw [hfound] at hr
          rwa [direct_deleteRows (fun hk => hchange ⟨⟨_, hr⟩, Or.inl hk⟩)
            fun hk => hchange ⟨⟨_, hr⟩, Or.inr hk⟩]
      · exact hj
    | _ => cases hwrites

/-- One action, with `owing` the keys whose invalidation was owed before it: a change of
rows is owed, a `DEL` settles, and a stored text must show its rows. -/
theorem World.Coherent.step {owing : CacheKey → Prop} (h : w.Coherent lib order owing)
    (hredis : ¬ faults.redis) (hdoes : World.does faults order a w r w')
    (hstore : ∀ key ttl text, a = .redisSetex key ttl text → ∃ k : CacheKey, key = k.text ∧
      (owing k ∨ w.Shows lib order k text)) :
    w'.Coherent lib order fun k => Changes k ⟨a, r⟩ ∨ owing k ∧ a ≠ .redisDel k.text := by
  have hkeep {key text : Bytes} {k : CacheKey} (hkey : key = k.text) (hdel : a ≠ .redisDel key)
      (hk : owing k ∨ w.Shows lib order k text) : ∃ k : CacheKey, key = k.text ∧
        ((Changes k ⟨a, r⟩ ∨ owing k ∧ a ≠ .redisDel k.text) ∨ w'.Shows lib order k text) := by
    refine ⟨k, hkey, ?_⟩
    by_cases hchange : Changes k ⟨a, r⟩
    · exact Or.inl (Or.inl hchange)
    · rcases hk with howing | hshows
      · exact Or.inl (Or.inr ⟨howing, hkey ▸ hdel⟩)
      · exact Or.inr (hshows.step hdoes hchange)
  intro key text hentry
  rcases World.does_cache hredis hdoes hentry with ⟨hentry, hdel⟩ | ⟨ttl, rfl⟩
  · obtain ⟨k, hkey, hk⟩ := h key text hentry
    exact hkeep hkey hdel hk
  · obtain ⟨k, hkey, hk⟩ := hstore key ttl text rfl
    exact hkeep hkey nofun hk

end Service
end ResourceServer
