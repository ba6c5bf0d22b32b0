import ResourceServer.Foundation.CString

/-!
# Tables with an identity column

The rows of a table whose `id INT GENERATED ALWAYS AS IDENTITY` column numbers them:
positive, distinct, within an `int`, and below the next number to be handed out. `insert`,
`modify` and `remove` are the three statements that change a table; `select` reads it.
-/

namespace ResourceServer

open CString

structure Table (ρ : Type) (id : ρ → ℤ) where
  rows : List ρ
  nextId : ℤ
  nodup : (rows.map id).Nodup
  ids : ∀ r ∈ rows, 0 < id r ∧ id r < nextId
  nextId_le : nextId ≤ intMax + 1

namespace Table

variable {ρ : Type} {id : ρ → ℤ} (t : Table ρ id) {p q : ρ → Bool}

def empty (ρ : Type) (id : ρ → ℤ) : Table ρ id where
  rows := []
  nextId := 1
  nodup := List.nodup_nil
  ids := by simp
  nextId_le := by decide

def select (p : ρ → Bool) : List ρ := t.rows.filter p

/-- A number may be skipped, but none is handed out twice. -/
def insert (r : ρ) (hnext : t.nextId ≤ id r) (hpos : 0 < id r) (hmax : id r ≤ intMax) :
    Table ρ id where
  rows := t.rows ++ [r]
  nextId := id r + 1
  nodup := by
    rw [List.map_append, List.nodup_append]
    refine ⟨t.nodup, by simp, ?_⟩
    intro i hi j hj hij
    obtain ⟨r', hr', rfl⟩ := List.mem_map.mp hi
    have hj : j = id r := by simpa using hj
    have := (t.ids r' hr').2
    omega
  ids := by
    intro r' hr'
    rcases List.mem_append.mp hr' with hr' | hr'
    · have := t.ids r' hr'
      omega
    · rw [List.mem_singleton.mp hr']
      omega
  nextId_le := by omega

def modify (p : ρ → Bool) (f : ρ → ρ) (hf : ∀ r, id (f r) = id r) : Table ρ id where
  rows := t.rows.map fun r => if p r then f r else r
  nextId := t.nextId
  nodup := by
    have : (t.rows.map fun r => if p r then f r else r).map id = t.rows.map id := by
      rw [List.map_map]
      apply List.map_congr_left
      intro r _
      by_cases hp : p r <;> simp [hp, hf]
    rw [this]
    exact t.nodup
  ids := by
    intro r' hr'
    obtain ⟨r, hr, rfl⟩ := List.mem_map.mp hr'
    by_cases hp : p r <;> simpa [hp, hf] using t.ids r hr
  nextId_le := t.nextId_le

def remove (p : ρ → Bool) : Table ρ id where
  rows := t.rows.filter fun r => !p r
  nextId := t.nextId
  nodup := t.nodup.sublist (List.filter_sublist.map id)
  ids r hr := t.ids r (List.mem_of_mem_filter hr)
  nextId_le := t.nextId_le

variable {t}

@[ext] theorem ext {t t' : Table ρ id} (hrows : t.rows = t'.rows) (hnext : t.nextId = t'.nextId) :
    t = t' := by
  cases t
  cases t'
  subst hrows hnext
  rfl

theorem mem_select {r : ρ} : r ∈ t.select p ↔ r ∈ t.rows ∧ p r = true := List.mem_filter

theorem mem_insert {r r' : ρ} (hnext : t.nextId ≤ id r) (hpos : 0 < id r) (hmax : id r ≤ intMax) :
    r' ∈ (t.insert r hnext hpos hmax).rows ↔ r' ∈ t.rows ∨ r' = r := by
  simp [insert]

theorem mem_modify {f : ρ → ρ} (hf : ∀ r, id (f r) = id r) {r' : ρ} :
    r' ∈ (t.modify p f hf).rows ↔ ∃ r ∈ t.rows, r' = if p r then f r else r := by
  simp only [modify, List.mem_map, eq_comm]

theorem mem_remove {r : ρ} : r ∈ (t.remove p).rows ↔ r ∈ t.rows ∧ p r = false := by
  simp [remove]

/-- A row outside a selection can be added without changing it. -/
theorem select_insert {r : ρ} (hnext : t.nextId ≤ id r) (hpos : 0 < id r) (hmax : id r ≤ intMax)
    (hq : q r = false) : (t.insert r hnext hpos hmax).select q = t.select q := by
  simp [select, insert, hq]

/-- Rows outside a selection can change, as long as they stay outside. -/
theorem select_modify {f : ρ → ρ} (hf : ∀ r, id (f r) = id r)
    (hq : ∀ r ∈ t.rows, p r = true → q r = false ∧ q (f r) = false) :
    (t.modify p f hf).select q = t.select q := by
  unfold select modify
  dsimp only
  generalize t.rows = rows at hq
  induction rows with
  | nil => rfl
  | cons r rows ih =>
    have ih := ih fun r hr => hq r (List.mem_cons_of_mem _ hr)
    by_cases hp : p r = true
    · obtain ⟨h1, h2⟩ := hq r List.mem_cons_self hp
      simp [hp, h1, h2, ih]
    · simp only [hp, List.map_cons, Bool.false_eq_true, if_false, List.filter_cons, ih]

theorem select_remove (hq : ∀ r ∈ t.rows, p r = true → q r = false) :
    (t.remove p).select q = t.select q := by
  simp only [select, remove, List.filter_filter]
  apply List.filter_congr
  intro r hr
  cases hp : p r
  · simp
  · simp [hq r hr hp]

/-- A change of no rows is none. -/
theorem modify_of_select_eq_nil {f : ρ → ρ} {hf : ∀ r, id (f r) = id r} (hp : t.select p = []) :
    t.modify p f hf = t := by
  have hnone : ∀ r ∈ t.rows, p r = false := by
    simpa [select, List.filter_eq_nil_iff] using hp
  refine ext ?_ rfl
  calc
    (t.rows.map fun r => if p r then f r else r) = t.rows.map fun r => r :=
      List.map_congr_left fun r hr => by simp [hnone r hr]
    _ = t.rows := List.map_id' _

theorem remove_of_select_eq_nil (hp : t.select p = []) : t.remove p = t := by
  have hnone : ∀ r ∈ t.rows, p r = false := by
    simpa [select, List.filter_eq_nil_iff] using hp
  exact ext (List.filter_eq_self.mpr fun r hr => by simp [hnone r hr]) rfl

/-- A selection by number has at most one row. -/
theorem eq_of_id_eq {r r' : ρ} (hr : r ∈ t.rows) (hr' : r' ∈ t.rows) (hid : id r = id r') :
    r = r' := List.inj_on_of_nodup_map t.nodup hr hr' hid

theorem select_eq_singleton {r : ρ} (hr : r ∈ t.rows) (hpr : p r = true)
    (hp : ∀ r', p r' = true → id r' = id r) : t.select p = [r] := by
  have hnodup : (t.select p).Nodup := (List.Nodup.of_map id t.nodup).filter p
  have hall : ∀ r' ∈ t.select p, r' = r := by
    intro r' hr'
    obtain ⟨hr', hp'⟩ := mem_select.mp hr'
    exact eq_of_id_eq hr' hr (hp r' hp')
  have hmem : r ∈ t.select p := mem_select.mpr ⟨hr, hpr⟩
  cases hsel : t.select p with
  | nil => simp [hsel] at hmem
  | cons a rest =>
    rw [hsel] at hall hnodup
    have ha : a = r := hall a List.mem_cons_self
    cases rest with
    | nil => rw [ha]
    | cons b rest =>
      have hb : b = r := hall b (by simp)
      simp [ha, hb] at hnodup

end Table
end ResourceServer
