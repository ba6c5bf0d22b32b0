import Mathlib.Data.List.Range
import ResourceServer.Foundation.CString
import ResourceServer.Foundation.Transition

/-!
# Migrations

`run_migrations.sh` applies the files of a directory in the order of their names and
records each in `schema_migrations`. A `psql` call with `--single-transaction` commits all
that it is given or nothing; without it every statement commits on its own. An invocation
may be aborted between any two of these commits, or when a call fails. The files
themselves leave `schema_migrations` to the script.
-/

namespace ResourceServer
namespace Deploy

open CString

/-- `^--[[:space:]]*migrate:[[:space:]]*no-transaction[[:space:]]*$`, with the space bytes of the C
locale. -/
def isMarker (line : Bytes) : Bool := Option.isSome do
  let rest ← line.dropPrefix? (ascii "--")
  let rest ← (rest.dropWhile isSpace).dropPrefix? (ascii "migrate:")
  let rest ← (rest.dropWhile isSpace).dropPrefix? (ascii "no-transaction")
  guard (rest.all isSpace)

/-- A file of the directory. Its name is the version. -/
structure Migration where
  version : Bytes
  text : Bytes
  deriving DecidableEq, Repr

/-- `grep -Eq` for the marker. -/
def Migration.noTransaction (m : Migration) : Bool := (m.text.splitOn lf).any isMarker

abbrev quote : UInt8 := 39

/-- `version_sql`, with every quote doubled. -/
def versionSql (version : Bytes) : Bytes :=
  version.flatMap fun b => if b = quote then [quote, quote] else [b]

/-- The value of an SQL literal, read behind its opening quote. -/
def literal : Bytes → Option Bytes
  | [] => none
  | b :: rest =>
    if b = quote then
      match rest with
      | [] => some []
      | b' :: rest' => if b' = quote then (literal rest').map (quote :: ·) else some []
    else (literal rest).map (b :: ·)

theorem literal_cons_of_ne {b : UInt8} (hb : b ≠ quote) (rest : Bytes) :
    literal (b :: rest) = (literal rest).map (b :: ·) := by
  cases rest with
  | nil => simp [literal, hb]
  | cons b' rest => simp [literal, hb]

theorem literal_versionSql (version after : Bytes) (hafter : after.head? ≠ some quote) :
    literal (versionSql version ++ quote :: after) = some version := by
  induction version with
  | nil =>
    cases after with
    | nil => rfl
    | cons b rest =>
      have hb : b ≠ quote := fun h => hafter (congrArg some h)
      simp [versionSql, literal, hb]
  | cons b version ih =>
    rw [versionSql] at ih
    by_cases hb : b = quote
    · simp [versionSql, literal, hb, ih]
    · simp [versionSql, literal_cons_of_ne hb, hb, ih]

/-- The version that `SELECT 1 FROM schema_migrations WHERE version = '…' LIMIT 1;` asks for. -/
def Migration.selected (m : Migration) : Option Bytes := literal (versionSql m.version ++ ascii "' LIMIT 1;")

/-- The version that `INSERT INTO schema_migrations (version) VALUES ('…');` records. -/
def Migration.inserted (m : Migration) : Option Bytes := literal (versionSql m.version ++ ascii "');")

@[simp] theorem Migration.selected_eq (m : Migration) : m.selected = some m.version :=
  literal_versionSql m.version (ascii " LIMIT 1;") (by decide)

@[simp] theorem Migration.inserted_eq (m : Migration) : m.inserted = some m.version :=
  literal_versionSql m.version (ascii ");") (by decide)

/-- The files of the directory in the order of the glob. No two have one name. -/
structure MigrationsDir where
  files : List Migration
  nodup : (files.map Migration.version).Nodup

theorem MigrationsDir.eq_of_version {dir : MigrationsDir} {m m' : Migration} (hm : m ∈ dir.files)
    (hm' : m' ∈ dir.files) (h : m.version = m'.version) : m = m' :=
  List.inj_on_of_nodup_map dir.nodup hm hm' h

/-- Where an invocation stands, with the files it has not come to. -/
inductive RunnerStage where
  -- no invocation
  | idle
  | connecting
  -- before `CREATE TABLE IF NOT EXISTS schema_migrations`
  | ensuring
  | looping (migrationFiles : List Migration)
  -- before the call with `--single-transaction`
  | applying (m : Migration) (migrationFiles : List Migration)
  -- in the call without it, behind `n` statements
  | running (m : Migration) (n : ℕ) (migrationFiles : List Migration)
  -- behind that call, before the `INSERT`
  | recording (m : Migration) (migrationFiles : List Migration)
  deriving DecidableEq, Repr

/-- The files an invocation has in hand or has not come to. -/
def RunnerStage.files : RunnerStage → List Migration
  | .idle | .connecting | .ensuring => []
  | .looping migrationFiles => migrationFiles
  | .applying m migrationFiles | .running m _ migrationFiles | .recording m migrationFiles =>
    m :: migrationFiles

/-- The file between the commits of its statements and its record. -/
def RunnerStage.inFlight : RunnerStage → Option Migration
  | .running m _ _ | .recording m _ => some m
  | _ => none

/-- The database, and the invocation that works on it. A table that does not exist is
`none`; `committed` lists the committed statements, by version and position in the file. -/
structure Runner where
  stage : RunnerStage
  schemaMigrations : Option (List Bytes)
  committed : List (Bytes × ℕ)
  deriving DecidableEq, Repr

inductive RunnerAct where
  | proceed
  | abort
  deriving DecidableEq, Repr

namespace Runner

def start (schemaMigrations : Option (List Bytes)) : Runner := ⟨.idle, schemaMigrations, []⟩

def rows (s : Runner) : List Bytes := s.schemaMigrations.getD []

/-- `already_applied` is 1. -/
def alreadyApplied (s : Runner) (m : Migration) : Prop := ∃ v ∈ s.rows, m.selected = some v

/-- The `INSERT`, which fails on a version that is there. -/
def Inserts (s : Runner) (m : Migration) (table : List Bytes) : Prop :=
  ∃ v, m.inserted = some v ∧ v ∉ s.rows ∧ table = s.rows ++ [v]

/-- The statements of a file, in order. -/
def statementsOf (statements : Bytes → ℕ) (m : Migration) : List (Bytes × ℕ) :=
  (List.range (statements m.text)).map (m.version, ·)

/-- `statements` counts the statements that `psql` finds in a file. -/
inductive Step (statements : Bytes → ℕ) (dir : MigrationsDir) : Runner → RunnerAct → Runner → Prop where
  | invoke {s : Runner} (hstage : s.stage = .idle) :
      Step statements dir s .proceed { s with stage := .connecting }
  | connect {s : Runner} (hstage : s.stage = .connecting) :
      Step statements dir s .proceed { s with stage := .ensuring }
  | ensure {s : Runner} (hstage : s.stage = .ensuring) :
      Step statements dir s .proceed { s with stage := .looping dir.files, schemaMigrations := some s.rows }
  | finish {s : Runner} (hstage : s.stage = .looping []) :
      Step statements dir s .proceed { s with stage := .idle }
  | skip {s : Runner} {m : Migration} {rest : List Migration} (hstage : s.stage = .looping (m :: rest))
      (happlied : s.alreadyApplied m) :
      Step statements dir s .proceed { s with stage := .looping rest }
  | choose {s : Runner} {m : Migration} {rest : List Migration} (hstage : s.stage = .looping (m :: rest))
      (happlied : ¬ s.alreadyApplied m) (hmarker : m.noTransaction = false) :
      Step statements dir s .proceed { s with stage := .applying m rest }
  | chooseMarked {s : Runner} {m : Migration} {rest : List Migration}
      (hstage : s.stage = .looping (m :: rest)) (happlied : ¬ s.alreadyApplied m)
      (hmarker : m.noTransaction = true) :
      Step statements dir s .proceed { s with stage := .running m 0 rest }
  | apply {s : Runner} {m : Migration} {rest : List Migration} {table : List Bytes}
      (hstage : s.stage = .applying m rest) (hinsert : s.Inserts m table) :
      Step statements dir s .proceed
        ⟨.looping rest, some table, s.committed ++ statementsOf statements m⟩
  | statement {s : Runner} {m : Migration} {n : ℕ} {rest : List Migration}
      (hstage : s.stage = .running m n rest) (hn : n < statements m.text) :
      Step statements dir s .proceed
        { s with stage := .running m (n + 1) rest, committed := s.committed ++ [(m.version, n)] }
  | ran {s : Runner} {m : Migration} {n : ℕ} {rest : List Migration}
      (hstage : s.stage = .running m n rest) (hn : n = statements m.text) :
      Step statements dir s .proceed { s with stage := .recording m rest }
  | record {s : Runner} {m : Migration} {rest : List Migration} {table : List Bytes}
      (hstage : s.stage = .recording m rest) (hinsert : s.Inserts m table) :
      Step statements dir s .proceed
        { s with stage := .looping rest, schemaMigrations := some table }
  -- the script is killed, or a call fails under `set -e`
  | abort {s : Runner} (hstage : s.stage ≠ .idle) :
      Step statements dir s .abort { s with stage := .idle }

/-- The positions of the committed statements of a file, in the order of their commits. -/
def history (s : Runner) (m : Migration) : List ℕ :=
  (s.committed.filter fun c => c.1 = m.version).map Prod.snd

def Recorded (s : Runner) (m : Migration) : Prop := m.version ∈ s.rows

def InFlight (s : Runner) (m : Migration) : Prop := s.stage.inFlight = some m

@[simp] theorem alreadyApplied_iff {s : Runner} {m : Migration} : s.alreadyApplied m ↔ s.Recorded m := by
  simp [alreadyApplied, Recorded]

theorem Inserts.eq {s : Runner} {m : Migration} {table : List Bytes} (h : s.Inserts m table) :
    table = s.rows ++ [m.version] := by
  obtain ⟨v, hv, -, rfl⟩ := h
  rw [Migration.inserted_eq] at hv
  cases hv
  rfl

theorem history_append (s : Runner) (l : List (Bytes × ℕ)) (m : Migration) (stage : RunnerStage)
    (table : Option (List Bytes)) :
    history ⟨stage, table, s.committed ++ l⟩ m =
      s.history m ++ (l.filter fun c => c.1 = m.version).map Prod.snd := by
  simp [history]

theorem filter_statementsOf (statements : Bytes → ℕ) (m : Migration) :
    ((statementsOf statements m).filter fun c => c.1 = m.version).map Prod.snd =
      List.range (statements m.text) := by
  simp [statementsOf, List.filter_map, Function.comp_def]

theorem filter_statementsOf_of_ne (statements : Bytes → ℕ) {m m' : Migration}
    (hne : m'.version ≠ m.version) :
    ((statementsOf statements m').filter fun c => c.1 = m.version).map Prod.snd = [] := by
  simp [statementsOf, List.filter_map, Function.comp_def, hne]

/-- How many statements of a file the invocation has committed, if it has the file in hand. -/
def inHand (statements : Bytes → ℕ) (m : Migration) : RunnerStage → Option ℕ
  | .applying m' _ => if m' = m then some 0 else none
  | .running m' n _ => if m' = m then some n else none
  | .recording m' _ => if m' = m then some (statements m.text) else none
  | _ => none

theorem inFlight_of_inHand {statements : Bytes → ℕ} {m : Migration} {stage : RunnerStage} {n : ℕ}
    (h : inHand statements m stage = some n) : stage.inFlight = some m ∨ n = 0 := by
  cases stage with
  | idle | connecting | ensuring | looping => cases h
  | applying m' rest =>
    simp only [inHand, Option.ite_none_right_eq_some, Option.some.injEq] at h
    exact Or.inr h.2.symm
  | running m' n rest =>
    simp only [inHand, Option.ite_none_right_eq_some] at h
    exact Or.inl (congrArg some h.1)
  | recording m' rest =>
    simp only [inHand, Option.ite_none_right_eq_some] at h
    exact Or.inl (congrArg some h.1)

/-- A file that no invocation has in hand. Where nothing of it is committed it may be
recorded, by whoever set up the database. -/
def Settled (statements : Bytes → ℕ) (s : Runner) (m : Migration) : Prop :=
  s.history m = [] ∨ s.history m = List.range (statements m.text) ∧ s.Recorded m

/-- A file in hand. -/
def Started (s : Runner) (m : Migration) (n : ℕ) : Prop :=
  s.history m = List.range n ∧ ¬ s.Recorded m

structure Kept (statements : Bytes → ℕ) (dir : MigrationsDir) (m : Migration) (s : Runner) : Prop where
  pending : ∀ m' ∈ s.stage.files, m' ∈ dir.files
  marked : s.InFlight m → m.noTransaction = true
  settled : inHand statements m s.stage = none → s.Settled statements m
  started : ∀ n, inHand statements m s.stage = some n → s.Started m n

theorem Kept.start (statements : Bytes → ℕ) (dir : MigrationsDir) (m : Migration)
    (schemaMigrations : Option (List Bytes)) : (start schemaMigrations).Kept statements dir m where
  pending := nofun
  marked := nofun
  settled _ := Or.inl rfl
  started := nofun

section Steps

variable {statements : Bytes → ℕ} {dir : MigrationsDir} {m : Migration} {s s' : Runner} {a : RunnerAct}

theorem Kept.of_settled (hpending : ∀ m' ∈ s.stage.files, m' ∈ dir.files)
    (hflight : ¬ s.InFlight m) (hhand : inHand statements m s.stage = none)
    (hsettled : s.Settled statements m) : s.Kept statements dir m where
  pending := hpending
  marked h := absurd h hflight
  settled _ := hsettled
  started n hn := by
    rw [hhand] at hn
    cases hn

theorem Kept.of_started {n : ℕ} (hpending : ∀ m' ∈ s.stage.files, m' ∈ dir.files)
    (hmarked : s.InFlight m → m.noTransaction = true) (hhand : inHand statements m s.stage = some n)
    (hstarted : s.Started m n) : s.Kept statements dir m where
  pending := hpending
  marked := hmarked
  settled h := by
    rw [hhand] at h
    cases h
  started n' hn' := by
    rw [hhand] at hn'
    cases hn'
    exact hstarted

/-- Nothing is committed of a file that the script takes up. -/
theorem Settled.started (hs : s.Settled statements m) (happlied : ¬ s.alreadyApplied m) :
    s.Started m 0 := by
  rw [alreadyApplied_iff] at happlied
  rcases hs with hnil | ⟨-, h⟩
  · exact ⟨hnil, happlied⟩
  · exact absurd h happlied

theorem Settled.mono (hs : s.Settled statements m) (hhistory : s'.history m = s.history m)
    (hrows : s.rows ⊆ s'.rows) : s'.Settled statements m := by
  unfold Settled
  rw [hhistory]
  exact hs.imp id fun h => ⟨h.1, hrows h.2⟩

theorem Inserts.subset {table : List Bytes} (h : s.Inserts m table) : s.rows ⊆ table := by
  rw [h.eq]
  exact List.subset_append_left ..

theorem Inserts.recorded {table : List Bytes} (h : s.Inserts m table) : m.version ∈ table := by
  rw [h.eq]
  exact List.mem_append_right _ (List.mem_singleton.mpr rfl)

theorem Kept.step (hs : s.Kept statements dir m) (hm : m ∈ dir.files)
    (habort : a = .abort → s.InFlight m → s.history m = []) (hstep : Step statements dir s a s') :
    s'.Kept statements dir m := by
  obtain ⟨hpending, hmarked, hsettled, hstarted⟩ := hs
  have hrest {m' : Migration} {rest : List Migration} (h : s.stage.files = m' :: rest) :
      m' ∈ dir.files ∧ ∀ m'' ∈ rest, m'' ∈ dir.files := by
    rw [h] at hpending
    exact ⟨hpending m' List.mem_cons_self, fun m'' hm'' => hpending m'' (List.mem_cons_of_mem _ hm'')⟩
  have hother {m' : Migration} (hm' : m' ∈ dir.files) (heq : m' ≠ m) : m'.version ≠ m.version :=
    fun h => heq (dir.eq_of_version hm' hm h)
  -- a step is about a file that is in hand or becomes so; any other file stays settled
  cases hstep with
  | invoke hstage | connect hstage | finish hstage =>
    exact .of_settled nofun nofun rfl (hsettled (by rw [hstage]; rfl))
  | ensure hstage => exact .of_settled (fun _ => id) nofun rfl (hsettled (by rw [hstage]; rfl))
  | skip hstage happlied =>
    exact .of_settled (hrest (by rw [hstage]; rfl)).2 nofun rfl (hsettled (by rw [hstage]; rfl))
  | @choose m' rest hstage happlied hmarker =>
    have hkept := hsettled (by rw [hstage]; rfl)
    rw [hstage] at hpending
    by_cases heq : m' = m
    · subst heq
      exact .of_started hpending nofun (if_pos rfl) (hkept.started happlied)
    · exact .of_settled hpending nofun (if_neg heq) hkept
  | @chooseMarked m' rest hstage happlied hmarker =>
    have hkept := hsettled (by rw [hstage]; rfl)
    rw [hstage] at hpending
    by_cases heq : m' = m
    · subst heq
      exact .of_started hpending (fun _ => hmarker) (if_pos rfl) (hkept.started happlied)
    · exact .of_settled hpending (fun h => absurd (Option.some.inj h) heq) (if_neg heq) hkept
  | @apply m' rest table hstage hinsert =>
    obtain ⟨hm', hpending'⟩ := hrest (by rw [hstage]; rfl)
    by_cases heq : m' = m
    · subst heq
      obtain ⟨hhistory, -⟩ := hstarted 0 (by rw [hstage]; exact if_pos rfl)
      refine .of_settled hpending' nofun rfl (Or.inr ⟨?_, hinsert.recorded⟩)
      rw [history_append, hhistory, filter_statementsOf]
      rfl
    · have hne : m'.version ≠ m.version := hother hm' heq
      have hkept := hsettled (by rw [hstage]; exact if_neg heq)
      refine .of_settled hpending' nofun rfl (hkept.mono ?_ hinsert.subset)
      rw [history_append, filter_statementsOf_of_ne statements hne, List.append_nil]
  | @statement m' n rest hstage hn =>
    obtain ⟨hm', -⟩ := hrest (by rw [hstage]; rfl)
    rw [hstage] at hpending
    by_cases heq : m' = m
    · subst heq
      obtain ⟨hhistory, hrecorded⟩ := hstarted n (by rw [hstage]; exact if_pos rfl)
      have hmarker : m'.noTransaction = true := hmarked (by rw [InFlight, hstage]; rfl)
      refine .of_started hpending (fun _ => hmarker) (if_pos rfl) ⟨?_, hrecorded⟩
      rw [history_append, hhistory, List.range_succ]
      simp
    · have hne : m'.version ≠ m.version := hother hm' heq
      have hkept := hsettled (by rw [hstage]; exact if_neg heq)
      refine .of_settled hpending (fun h => absurd (Option.some.inj h) heq) (if_neg heq)
        (hkept.mono ?_ (List.Subset.refl _))
      rw [history_append]
      simp [hne]
  | @ran m' n rest hstage hn =>
    rw [hstage] at hpending
    by_cases heq : m' = m
    · subst heq
      have hmarker : m'.noTransaction = true := hmarked (by rw [InFlight, hstage]; rfl)
      have hkept := hstarted n (by rw [hstage]; exact if_pos rfl)
      rw [hn] at hkept
      exact .of_started hpending (fun _ => hmarker) (if_pos rfl) hkept
    · have hkept := hsettled (by rw [hstage]; exact if_neg heq)
      exact .of_settled hpending (fun h => absurd (Option.some.inj h) heq) (if_neg heq) hkept
  | @record m' rest table hstage hinsert =>
    obtain ⟨-, hpending'⟩ := hrest (by rw [hstage]; rfl)
    by_cases heq : m' = m
    · subst heq
      obtain ⟨hhistory, -⟩ := hstarted _ (by rw [hstage]; exact if_pos rfl)
      exact .of_settled hpending' nofun rfl (Or.inr ⟨hhistory, hinsert.recorded⟩)
    · have hkept := hsettled (by rw [hstage]; exact if_neg heq)
      exact .of_settled hpending' nofun rfl (hkept.mono rfl hinsert.subset)
  | abort hstage =>
    refine .of_settled nofun nofun rfl ?_
    cases hhand : inHand statements m s.stage with
    | none => exact hsettled hhand
    | some n =>
      obtain ⟨hhistory, -⟩ := hstarted n hhand
      rcases inFlight_of_inHand hhand with hflight | rfl
      · exact Or.inl (habort rfl hflight)
      · exact Or.inl hhistory

theorem Kept.nodup (hs : s.Kept statements dir m) : (s.history m).Nodup := by
  cases hhand : inHand statements m s.stage with
  | none =>
    rcases hs.settled hhand with h | ⟨h, -⟩
    · rw [h]
      exact List.nodup_nil
    · rw [h]
      exact List.nodup_range
  | some n =>
    rw [(hs.started n hhand).1]
    exact List.nodup_range

theorem Kept.recorded (hs : s.Kept statements dir m) (hflight : ¬ s.InFlight m)
    (hhistory : s.history m ≠ []) :
    s.history m = List.range (statements m.text) ∧ s.Recorded m := by
  cases hhand : inHand statements m s.stage with
  | none => exact (hs.settled hhand).resolve_left hhistory
  | some n =>
    rcases inFlight_of_inHand hhand with h | rfl
    · exact absurd h hflight
    · exact absurd (hs.started 0 hhand).1 hhistory

end Steps

/-- An invocation is not aborted between the first commit of a file and its record. -/
def Spares (m : Migration) (s : Runner) (a : RunnerAct) : Prop :=
  a = .abort → s.InFlight m → s.history m = []

/-- **At most once.** Whatever the database records at first and wherever invocations are
aborted, a file without the marker is committed as a whole and once, or not at all, and
recorded when it is. So is a file with the marker, as long as no invocation is aborted
between its first commit and its record. -/
theorem migrations_at_most_once (statements : Bytes → ℕ) (dir : MigrationsDir)
    (schemaMigrations : Option (List Bytes)) (m : Migration) (hm : m ∈ dir.files) (s : Runner) :
    (m.noTransaction = false → Reaches (Step statements dir) (start schemaMigrations) s →
      (s.history m).Nodup ∧
      (s.history m ≠ [] → s.history m = List.range (statements m.text) ∧ s.Recorded m)) ∧
    (m.noTransaction = true → Runs (Step statements dir) (Spares m) (start schemaMigrations) s →
      (s.history m).Nodup ∧
      (s.history m ≠ [] → ¬ s.InFlight m →
        s.history m = List.range (statements m.text) ∧ s.Recorded m)) := by
  have hstart : (start schemaMigrations).Kept statements dir m := .start ..
  constructor
  · intro hmarker hrun
    have hnever {s : Runner} (hs : s.Kept statements dir m) : ¬ s.InFlight m := by
      intro h
      exact absurd (hmarker.symm.trans (hs.marked h)) nofun
    have hkept : s.Kept statements dir m :=
      Reaches.invariant (I := Kept statements dir m) hrun
        (fun _ _ _ hs hstep => hs.step hm (fun _ h => absurd h (hnever hs)) hstep) hstart
    exact ⟨hkept.nodup, hkept.recorded (hnever hkept)⟩
  · intro _ hrun
    have hkept : s.Kept statements dir m :=
      Runs.invariant (I := Kept statements dir m) hrun
        (fun _ _ _ hs habort hstep => hs.step hm habort hstep) hstart
    exact ⟨hkept.nodup, fun hhistory hflight => hkept.recorded hflight hhistory⟩

/-- A file of one statement with the marker. -/
def indexMigration : Migration where
  version := ascii "004_add_index.sql"
  text := ascii "-- migrate: no-transaction" ++ [lf] ++ ascii "CREATE INDEX CONCURRENTLY i ON t (c);"

def tableMigration : Migration where
  version := ascii "001_create_table.sql"
  text := ascii "CREATE TABLE t (c INT);"

def indexDir : MigrationsDir := ⟨[indexMigration], List.nodup_singleton _⟩

def bothDir : MigrationsDir := ⟨[tableMigration, indexMigration], by decide +kernel⟩

/-- As many statements as semicolons. -/
def semicolons (text : Bytes) : ℕ := text.count 59

/-- The database behind an invocation that has applied both files. -/
def upToDate : Runner where
  stage := .looping []
  schemaMigrations := some [tableMigration.version, indexMigration.version]
  committed := [(tableMigration.version, 0), (indexMigration.version, 0)]

theorem upToDate_reached (m : Migration) :
    Runs (Step semicolons bothDir) (Spares m) (start none) upToDate := by
  have hinvoke : Step semicolons bothDir (start none) .proceed ⟨.connecting, none, []⟩ := .invoke rfl
  have hconnect : Step semicolons bothDir ⟨.connecting, none, []⟩ .proceed ⟨.ensuring, none, []⟩ :=
    .connect rfl
  have hensure : Step semicolons bothDir ⟨.ensuring, none, []⟩ .proceed
      ⟨.looping bothDir.files, some [], []⟩ := .ensure rfl
  have hchoose : Step semicolons bothDir ⟨.looping bothDir.files, some [], []⟩ .proceed
      ⟨.applying tableMigration [indexMigration], some [], []⟩ := by
    refine .choose rfl ?_ (by decide +kernel)
    rw [alreadyApplied_iff]
    exact List.not_mem_nil
  have happly : Step semicolons bothDir ⟨.applying tableMigration [indexMigration], some [], []⟩
      .proceed ⟨.looping [indexMigration], some [tableMigration.version],
        [(tableMigration.version, 0)]⟩ :=
    .apply rfl ⟨tableMigration.version, tableMigration.inserted_eq, List.not_mem_nil, rfl⟩
  have hnew : indexMigration.version ∉ [tableMigration.version] := by decide +kernel
  have hmarked : Step semicolons bothDir ⟨.looping [indexMigration], some [tableMigration.version],
      [(tableMigration.version, 0)]⟩ .proceed ⟨.running indexMigration 0 [],
        some [tableMigration.version], [(tableMigration.version, 0)]⟩ := by
    refine .chooseMarked rfl ?_ (by decide +kernel)
    rw [alreadyApplied_iff]
    exact hnew
  have hstatement : Step semicolons bothDir ⟨.running indexMigration 0 [],
      some [tableMigration.version], [(tableMigration.version, 0)]⟩ .proceed
      { upToDate with
        stage := .running indexMigration 1 [], schemaMigrations := some [tableMigration.version] } :=
    .statement rfl (by decide +kernel)
  have hran : Step semicolons bothDir { upToDate with
      stage := .running indexMigration 1 [], schemaMigrations := some [tableMigration.version] } .proceed
      { upToDate with
        stage := .recording indexMigration [], schemaMigrations := some [tableMigration.version] } :=
    .ran rfl (by decide +kernel)
  have hrecord : Step semicolons bothDir { upToDate with
      stage := .recording indexMigration [], schemaMigrations := some [tableMigration.version] } .proceed
      upToDate := .record rfl ⟨indexMigration.version, indexMigration.inserted_eq, hnew, rfl⟩
  exact ((((((((Runs.refl.snoc hinvoke nofun).snoc hconnect nofun).snoc hensure nofun).snoc hchoose
    nofun).snoc happly nofun).snoc hmarked nofun).snoc hstatement nofun).snoc hran nofun).snoc
    hrecord nofun

theorem upToDate_recorded : upToDate.Recorded tableMigration ∧ upToDate.Recorded indexMigration := by
  have htable := (migrations_at_most_once semicolons bothDir none tableMigration (by decide +kernel)
    upToDate).1 (by decide +kernel) (upToDate_reached tableMigration).reaches
  have hindex := (migrations_at_most_once semicolons bothDir none indexMigration (by decide +kernel)
    upToDate).2 (by decide +kernel) (upToDate_reached indexMigration)
  exact ⟨(htable.2 (by decide +kernel)).2, (hindex.2 (by decide +kernel) nofun).2⟩

/-- The runner after `n` invocations that committed the file and were aborted before its record. -/
def interrupted (stage : RunnerStage) (n : ℕ) : Runner :=
  ⟨stage, some [], List.replicate n (indexMigration.version, 0)⟩

theorem interrupted_again (n : ℕ) :
    Reaches (Step semicolons indexDir) (start (some [])) (interrupted .idle n) := by
  induction n with
  | zero => exact Runs.refl
  | succ n ih =>
    have hinvoke : Step semicolons indexDir (interrupted .idle n) .proceed (interrupted .connecting n) :=
      .invoke rfl
    have hconnect : Step semicolons indexDir (interrupted .connecting n) .proceed
        (interrupted .ensuring n) := .connect rfl
    have hensure : Step semicolons indexDir (interrupted .ensuring n) .proceed
        (interrupted (.looping [indexMigration]) n) := .ensure rfl
    have hchoose : Step semicolons indexDir (interrupted (.looping [indexMigration]) n) .proceed
        (interrupted (.running indexMigration 0 []) n) := by
      refine .chooseMarked rfl ?_ (by decide +kernel)
      rw [alreadyApplied_iff]
      exact List.not_mem_nil
    have hstatement : Step semicolons indexDir (interrupted (.running indexMigration 0 []) n) .proceed
        (interrupted (.running indexMigration 1 []) (n + 1)) := by
      unfold interrupted
      rw [List.replicate_succ']
      exact .statement rfl (by decide +kernel)
    have habort : Step semicolons indexDir (interrupted (.running indexMigration 1 []) (n + 1)) .abort
        (interrupted .idle (n + 1)) := .abort nofun
    exact (((((ih.snoc hinvoke trivial).snoc hconnect trivial).snoc hensure trivial).snoc hchoose
      trivial).snoc hstatement trivial).snoc habort trivial

theorem interrupted_history (stage : RunnerStage) (n : ℕ) :
    (interrupted stage n).history indexMigration = List.replicate n 0 := by
  simp [interrupted, history]

/-- An index created outside of a transaction is created twice, and not recorded. -/
theorem index_created_twice : ¬ ∀ (statements : Bytes → ℕ) (dir : MigrationsDir)
    (schemaMigrations : Option (List Bytes)), ∀ m ∈ dir.files, ∀ s,
    Reaches (Step statements dir) (start schemaMigrations) s →
      (s.history m).Nodup ∧ (s.history m ≠ [] → s.Recorded m) := by
  intro h
  have htwice := (h semicolons indexDir (some []) indexMigration (List.mem_singleton.mpr rfl) _
    (interrupted_again 2)).1
  rw [interrupted_history] at htwice
  exact absurd htwice (by decide)

end Runner
end Deploy
end ResourceServer
