import ResourceServer.Service.Calls
import ResourceServer.Service.Tokens

/-!
# Registration and login

A registration that is answered with "created" leaves one row, under the C strings of its
name and email; a login selects the row of its email and compares password hashes. Which
logins succeed follows from the registrations alone. The columns hold what is stored: that
PostgreSQL cuts trailing blanks beyond the width of a `VARCHAR` is left out.
-/

namespace ResourceServer
namespace Service

open CString

variable {P : Platform} {faults : Faults} {order : RowOrder}

/-- A registration with the id its user got. -/
structure Registration where
  info : UserInfo
  id : ℤ
  deriving DecidableEq, Repr

def Registration.row (P : Platform) (reg : Registration) : User :=
  ⟨reg.id, cstr reg.info.name, cstr reg.info.email, cstr (P.sha256 reg.info.password)⟩

def Turn.registered (w w' : World) : Turn → List Registration
  | .served (.createUser info) _ answer =>
    if (answer.get? (ascii "status")).bind Json.asString? = some (ascii "created") then
      (w'.users.rows.filter fun r => r ∉ w.users.rows).map fun r => ⟨info, r.id⟩
    else []
  | _ => []

/-- The stores, and the registrations so far. -/
structure Registry where
  world : World
  log : List Registration

inductive Registry.Step (P : Platform) (faults : Faults) (order : RowOrder) :
    Registry → Turn → Registry → Prop where
  | mk {s : Registry} {turn : Turn} {w' : World} (h : World.Step P faults order s.world turn w') :
      Step P faults order s turn ⟨w', s.log ++ turn.registered s.world w'⟩

/-- The table holds the rows of the registrations, no two under one stored email. -/
structure Registry.Logged (P : Platform) (s : Registry) : Prop where
  rows : s.world.users.rows = s.log.map (·.row P)
  emails : (s.log.map fun reg => cstr reg.info.email).Nodup

theorem does_users {a : Action} {w w' : World} {r : a.Ret} (h : World.does faults order a w r w')
    (ha : ∀ name email password, a ≠ .insertUser name email password) : w'.users = w.users := by
  apply (World.does_frame h).users
  intro hwrites
  cases a with
  | insertUser name email password => exact absurd rfl (ha name email password)
  | _ => cases hwrites

/-- Only a registration touches the table. -/
theorem exec_users {q : ServiceQuery} {w w' : World} {calls : History} {answer : Json}
    (hq : ∀ info, q ≠ .createUser info)
    (hexec : Prog.Exec (World.does faults order) w (serve P q) calls w' answer) :
    w'.users = w.users := by
  have hkept := hexec.along (I := fun v _ => v.users = w.users) (serve_traces P q) ?_ rfl
  · exact hkept.2.1
  · intro a v r v' past hguard hv hstep
    refine (does_users hstep ?_).trans hv
    rintro name email password rfl
    obtain ⟨info, rfl⟩ := hguard
    exact hq info rfl

theorem createUser_exec {info : UserInfo} {w w' : World} {calls : History} {answer : Json}
    (hexec : Prog.Exec (World.does faults order) w (UserService.createUser P info) calls w' answer) :
    (∃ id, answer = .status (ascii "created") ∧
        (∀ user ∈ w.users.rows, user.email ≠ cstr info.email) ∧ w.users.nextId ≤ id ∧
        w'.users.rows = w.users.rows ++ [Registration.row P ⟨info, id⟩]) ∨
      w'.users = w.users ∧ ∃ text, answer = .error text := by
  obtain ⟨-, w₁, rest, rfl, rfl, hrest⟩ := exec_act_iff.mp hexec
  obtain ⟨result, w₂, last, hdoes, rfl, hlast⟩ := exec_act_iff.mp hrest
  obtain ⟨rfl, hnew, id, hnext, hpos, hmax, rfl⟩ | ⟨-, ⟨f, rfl⟩, rfl⟩ := hdoes
  · obtain ⟨-, rfl, rfl⟩ := Prog.exec_ret_iff.mp hlast
    exact Or.inl ⟨id, rfl, hnew, hnext, rfl⟩
  · obtain ⟨-, w₃, tail, rfl, rfl, htail⟩ := exec_act_iff.mp hlast
    obtain ⟨text, ⟨-, rfl⟩, -, rfl⟩ := readError_exec htail
    exact Or.inr ⟨rfl, text, rfl⟩

theorem registered_eq_nil {w w' : World} {q : ServiceQuery} {calls : History} {answer : Json}
    (hq : ∀ info, q ≠ .createUser info) : (Turn.served q calls answer).registered w w' = [] := by
  cases q with
  | createUser info => exact absurd rfl (hq info)
  | _ => rfl

theorem registered_created {w w' : World} {info : UserInfo} {calls : History} {id : ℤ}
    (hid : w.users.nextId ≤ id)
    (hrows : w'.users.rows = w.users.rows ++ [Registration.row P ⟨info, id⟩]) :
    (Turn.served (.createUser info) calls (.status (ascii "created"))).registered w w' =
      [⟨info, id⟩] := by
  have hstatus : ((Json.status (ascii "created")).get? (ascii "status")).bind Json.asString? =
      some (ascii "created") := rfl
  have hold : (w.users.rows.filter fun r => r ∉ w.users.rows) = [] := by
    simp
  have hrow : Registration.row P ⟨info, id⟩ ∉ w.users.rows := by
    intro h
    exact absurd (w.users.ids _ h).2 (not_lt.mpr hid)
  have hnew : ([Registration.row P ⟨info, id⟩].filter fun r => r ∉ w.users.rows) =
      [Registration.row P ⟨info, id⟩] := by
    simp [hrow]
  simp only [Turn.registered, if_pos hstatus, hrows, List.filter_append, hold, hnew, List.nil_append]
  rfl

theorem registered_refused {w w' : World} {info : UserInfo} {calls : History} {text : Bytes} :
    (Turn.served (.createUser info) calls (.error text)).registered w w' = [] := rfl

theorem Registry.Logged.step {s s' : Registry} {turn : Turn} (hs : s.Logged P)
    (hstep : Registry.Step P faults order s turn s') : s'.Logged P := by
  have hsame {w' : World} {turn : Turn} (husers : w'.users = s.world.users)
      (hnone : turn.registered s.world w' = []) :
      Registry.Logged P ⟨w', s.log ++ turn.registered s.world w'⟩ := by
    rw [hnone, List.append_nil]
    exact ⟨(congrArg Table.rows husers).trans hs.rows, hs.emails⟩
  obtain ⟨h⟩ := hstep
  cases h with
  | expired key => exact hsame rfl rfl
  | @served _ q calls answer hexec =>
    by_cases hq : ∀ info, q ≠ .createUser info
    · exact hsame (exec_users hq hexec) (registered_eq_nil hq)
    · push Not at hq
      obtain ⟨info, rfl⟩ := hq
      rcases createUser_exec hexec with ⟨id, rfl, hfresh, hid, hrows⟩ | ⟨husers, text, rfl⟩
      · rw [registered_created hid hrows]
        constructor
        · rw [hrows, hs.rows, List.map_append]
          rfl
        · rw [List.map_append, List.nodup_append]
          refine ⟨hs.emails, List.nodup_singleton _, ?_⟩
          intro email hemail email' hemail'
          obtain ⟨reg, hreg, rfl⟩ := List.mem_map.mp hemail
          obtain rfl := List.mem_singleton.mp hemail'
          apply hfresh (reg.row P)
          rw [hs.rows]
          exact List.mem_map_of_mem hreg
      · exact hsame husers registered_refused

theorem Registry.logged_of_reaches {s s' : Registry} (hrows : s.world.users.rows = [])
    (hlog : s.log = []) (hrun : Reaches (Registry.Step P faults order) s s') : s'.Logged P := by
  apply Reaches.invariant (I := fun s => s.Logged P) hrun
  · exact fun s turn s' hs hstep => hs.step hstep
  · constructor
    · rw [hrows, hlog]
      rfl
    · rw [hlog]
      exact List.nodup_nil

theorem Registry.Logged.unique {s : Registry} (hs : s.Logged P) {reg reg' : Registration}
    (hreg : reg ∈ s.log) (hreg' : reg' ∈ s.log)
    (hemail : cstr reg.info.email = cstr reg'.info.email) : reg = reg' :=
  List.inj_on_of_nodup_map hs.emails hreg hreg' hemail

theorem Registry.Logged.selected {s : Registry} (hs : s.Logged P) {email : Bytes} {user : User} :
    (s.world.users.select (·.email = cstr email)).head? = some user ↔
      ∃ reg ∈ s.log, cstr reg.info.email = cstr email ∧ user = reg.row P := by
  constructor
  · intro h
    obtain ⟨hmem, hemail⟩ := Table.mem_select.mp (List.mem_of_head? h)
    rw [hs.rows] at hmem
    obtain ⟨reg, hreg, rfl⟩ := List.mem_map.mp hmem
    exact ⟨reg, hreg, of_decide_eq_true hemail, rfl⟩
  · rintro ⟨reg, hreg, hemail, rfl⟩
    have hmem : reg.row P ∈ s.world.users.select (·.email = cstr email) := by
      apply Table.mem_select.mpr
      constructor
      · rw [hs.rows]
        exact List.mem_map_of_mem hreg
      · exact decide_eq_true hemail
    obtain ⟨user, rest, hsel⟩ := List.exists_cons_of_ne_nil (List.ne_nil_of_mem hmem)
    have huser : user ∈ s.world.users.select (·.email = cstr email) := by
      rw [hsel]
      exact List.mem_cons_self
    obtain ⟨hrow, hemail'⟩ := Table.mem_select.mp huser
    rw [hs.rows] at hrow
    obtain ⟨reg', hreg', rfl⟩ := List.mem_map.mp hrow
    have hsame : reg' = reg :=
      hs.unique hreg' hreg ((of_decide_eq_true hemail').trans hemail.symm)
    rw [hsel, hsame]
    rfl

section Login

variable {digest : Bytes → Bytes} {lib : JwtLib} {now : ℤ}

/-- The database answers the login's `SELECT`, and its tokens come from `create_jwt`. -/
structure LoginServed (P : Platform) (lib : JwtLib) (now : ℤ) (calls : History) : Prop where
  selected : ∀ email f, ⟨.selectUser email, Except.error f⟩ ∉ calls
  issued : ∀ userId result, ⟨.createJwt userId, result⟩ ∈ calls →
    result = JwtUtils.createJwt P lib now userId

/-- JWTs work and are configured. -/
structure JwtUtils.Working (P : Platform) (lib : JwtLib) : Prop where
  correct : lib.Correct
  secret : JwtUtils.getSecret P ≠ []
  lifetime : 0 < JwtUtils.getExpiresSeconds P

/-- The token of a login that succeeded. -/
def LoggedIn (answer : Json) (token : Bytes) : Prop :=
  answer.get? (ascii "token") = some (.str token)

/-- The email of a registration, and a password with the digest of its password. -/
structure Registration.Matches (digest : Bytes → Bytes) (reg : Registration)
    (email password : Bytes) : Prop where
  email : reg.info.email = email
  password : digest reg.info.password = digest password

/-- A login gets a token exactly if it matches a registration, and the token verifies to the
id of that user. -/
structure Authenticates (P : Platform) (digest : Bytes → Bytes) (lib : JwtLib) (now : ℤ)
    (log : List Registration) (info : UserInfo) (answer : Json) : Prop where
  registered : ∀ token, LoggedIn answer token →
    ∃ reg ∈ log, reg.Matches digest info.email info.password ∧
      ∀ later, now ≤ later → later < now + JwtUtils.getExpiresSeconds P →
        JwtUtils.verifyJwtAndGetUserId P lib later token = some reg.id
  admitted : (∃ reg ∈ log, reg.Matches digest info.email info.password) →
    ∃ token, LoggedIn answer token

theorem not_loggedIn_error (text token : Bytes) : ¬ LoggedIn (.error text) token := by
  intro h
  cases h

/-- The `SELECT` of a login returns the first row of the email. -/
theorem getUserByEmail_exec {email : Bytes} {w w' : World} {calls : History} {found : Option User}
    (hserved : ∀ f, ⟨.selectUser (cstr email), Except.error f⟩ ∉ calls)
    (hexec : Prog.Exec (World.does faults order) w (UserDAO.getUserByEmail email) calls w' found) :
    found = (w.users.select (·.email = cstr email)).head? := by
  obtain ⟨_, w₁, rest, rfl, rfl, hrest⟩ := exec_act_iff.mp hexec
  obtain ⟨result, w₂, last, hdoes, rfl, hlast⟩ := exec_act_iff.mp hrest
  obtain ⟨rfl, -⟩ | ⟨-, ⟨f, rfl⟩, -⟩ := hdoes
  · change found = (w.users.select (·.email = cstr email)).head?
    have husers : (w.setMsg .user []).users = w.users := rfl
    rw [husers] at hlast
    cases hfound : (w.users.select (·.email = cstr email)).head? with
    | none =>
      rw [hfound] at hlast
      obtain ⟨_, w₃, tail, -, rfl, htail⟩ := exec_act_iff.mp hlast
      exact (Prog.exec_ret_iff.mp htail).2.2
    | some user =>
      rw [hfound] at hlast
      exact (Prog.exec_ret_iff.mp hlast).2.2
  · exact absurd (by simp) (hserved f)

theorem refuse_exec {reason : Bytes} {w w' : World} {calls : History} {answer : Json}
    (hexec : Prog.Exec (World.does faults order) w (UserService.refuse reason) calls w' answer) :
    ∃ text, answer = .error text := by
  obtain ⟨_, w₁, rest, -, rfl, hrest⟩ := exec_act_iff.mp hexec
  obtain ⟨text, -, -, hanswer⟩ := readError_exec hrest
  exact ⟨text, hanswer⟩

/-- Without a row there is no token. -/
theorem login_unknown {info : UserInfo} {w w' : World} {calls : History} {answer : Json}
    (hserved : ∀ f, ⟨.selectUser (cstr info.email), Except.error f⟩ ∉ calls)
    (hnone : (w.users.select (·.email = cstr info.email)).head? = none)
    (hexec : Prog.Exec (World.does faults order) w (UserService.login P info) calls w' answer) :
    ∃ text, answer = .error text := by
  obtain ⟨loading, w₁, found, rest, hload, hrest, rfl⟩ := Prog.exec_bind_iff.mp hexec
  have hfound := getUserByEmail_exec (fun f hf => hserved f (List.mem_append_left _ hf)) hload
  rw [hfound, hnone] at hrest
  obtain ⟨text, -, -, hanswer⟩ := readError_exec hrest
  exact ⟨text, hanswer⟩

/-- With a row, the hash decides, and the token is for the row's id. -/
theorem login_known {info : UserInfo} {user : User} {w w' : World} {calls : History} {answer : Json}
    (hjwt : JwtUtils.Working P lib) (hserved : LoginServed P lib now calls)
    (hsome : (w.users.select (·.email = cstr info.email)).head? = some user)
    (hexec : Prog.Exec (World.does faults order) w (UserService.login P info) calls w' answer) :
    user.password ≠ P.sha256 info.password ∧ (∃ text, answer = .error text) ∨
      user.password = P.sha256 info.password ∧ ∃ token, LoggedIn answer token ∧
        ∀ later, now ≤ later → later < now + JwtUtils.getExpiresSeconds P →
          JwtUtils.verifyJwtAndGetUserId P lib later token = some user.id := by
  have hrow := w.users.ids user (Table.mem_select.mp (List.mem_of_head? hsome)).1
  have hmax : user.id ≤ intMax := by
    have := w.users.nextId_le
    omega
  obtain ⟨token, hcreate, hne, hverify⟩ :=
    JwtUtils.createJwt_verifies hjwt.correct hjwt.secret hjwt.lifetime hrow.1 hmax now
  obtain ⟨loading, w₁, found, rest, hload, hrest, rfl⟩ := Prog.exec_bind_iff.mp hexec
  have hfound := getUserByEmail_exec
    (fun f hf => hserved.selected _ f (List.mem_append_left _ hf)) hload
  rw [hfound, hsome] at hrest
  dsimp only at hrest
  split_ifs at hrest with hhash
  · exact Or.inl ⟨hhash, refuse_exec hrest⟩
  · right
    refine ⟨not_not.mp hhash, token, ?_, hverify⟩
    obtain ⟨result, w₂, last, -, rfl, hlast⟩ := exec_act_iff.mp hrest
    have hresult : result = Except.ok token :=
      (hserved.issued user.id result (by simp)).trans hcreate
    obtain ⟨b, rest, rfl⟩ := List.exists_cons_of_ne_nil hne
    rw [hresult] at hlast
    obtain ⟨-, -, rfl⟩ := Prog.exec_ret_iff.mp hlast
    rfl

theorem Registry.Logged.login {s : Registry} {w' : World} {info : UserInfo} {calls : History}
    {answer : Json} (hs : s.Logged P) (hsha : P.sha256 = AuthUtils.sha256 digest)
    (hjwt : JwtUtils.Working P lib) (hserved : LoginServed P lib now calls)
    (hexec : Prog.Exec (World.does faults order) s.world (UserService.login P info) calls w' answer) :
    (∃ reg ∈ s.log, cstr reg.info.email = cstr info.email ∧
        digest reg.info.password = digest info.password ∧
        ∃ token, LoggedIn answer token ∧
          ∀ later, now ≤ later → later < now + JwtUtils.getExpiresSeconds P →
            JwtUtils.verifyJwtAndGetUserId P lib later token = some reg.id) ∨
      (∀ reg ∈ s.log, cstr reg.info.email = cstr info.email →
        digest reg.info.password ≠ digest info.password) ∧ ∀ token, ¬ LoggedIn answer token := by
  cases hselect : (s.world.users.select (·.email = cstr info.email)).head? with
  | none =>
    right
    obtain ⟨text, rfl⟩ := login_unknown (hserved.selected _) hselect hexec
    refine ⟨?_, not_loggedIn_error text⟩
    intro reg hreg hemail
    rw [hs.selected.mpr ⟨reg, hreg, hemail, rfl⟩] at hselect
    cases hselect
  | some user =>
    obtain ⟨reg, hreg, hemail, rfl⟩ := hs.selected.mp hselect
    have hhash : (reg.row P).password = P.sha256 info.password ↔
        digest reg.info.password = digest info.password := by
      rw [Registration.row, hsha, AuthUtils.cstr_sha256]
      exact AuthUtils.sha256_eq_iff
    rcases login_known hjwt hserved hselect hexec with ⟨hne, text, rfl⟩ | ⟨heq, htoken⟩
    · right
      refine ⟨?_, not_loggedIn_error text⟩
      intro reg' hreg' hemail'
      rw [hs.unique hreg' hreg (hemail'.trans hemail.symm)]
      exact fun h => hne (hhash.mpr h)
    · exact Or.inl ⟨reg, hreg, hemail, hhash.mp heq, htoken⟩

/-- A registration of another email that is stored under the same C string, with a password
of the same digest. -/
structure Registration.Collides (digest : Bytes → Bytes) (reg : Registration) (info : UserInfo) :
    Prop where
  stored : cstr reg.info.email = cstr info.email
  other : reg.info.email ≠ info.email
  password : digest reg.info.password = digest info.password

/-- After any registrations, a login answers as it should exactly if none of them collides
with it. -/
theorem authenticates_iff {s₀ s : Registry} {w' : World} {info : UserInfo} {calls : History}
    {answer : Json} (hsha : P.sha256 = AuthUtils.sha256 digest) (hjwt : JwtUtils.Working P lib)
    (hrows : s₀.world.users.rows = []) (hlog : s₀.log = [])
    (hrun : Reaches (Registry.Step P faults order) s₀ s)
    (hexec : Prog.Exec (World.does faults order) s.world (serve P (.login info)) calls w' answer)
    (hserved : LoginServed P lib now calls) :
    Authenticates P digest lib now s.log info answer ↔
      ∀ reg ∈ s.log, ¬ reg.Collides digest info := by
  have hs := Registry.logged_of_reaches hrows hlog hrun
  have hlogin := hs.login hsha hjwt hserved hexec
  constructor
  · intro hright reg hreg hcollides
    rcases hlogin with ⟨_, -, -, -, token, htoken, -⟩ | ⟨hrefused, -⟩
    · obtain ⟨reg', hreg', hmatches, -⟩ := hright.registered token htoken
      have hsame : reg' = reg := by
        apply hs.unique hreg' hreg
        rw [hmatches.email, hcollides.stored]
      exact hcollides.other (hsame ▸ hmatches.email)
    · exact hrefused reg hreg hcollides.stored hcollides.password
  · intro hnone
    rcases hlogin with ⟨reg, hreg, hemail, hpassword, token, htoken, hverify⟩ | ⟨hrefused, hno⟩
    · have hexact : reg.info.email = info.email := by
        by_contra hother
        exact hnone reg hreg ⟨hemail, hother, hpassword⟩
      constructor
      · intro token' htoken'
        have htokens : token' = token := by
          have := htoken'.symm.trans htoken
          simpa using this
        rw [htokens]
        exact ⟨reg, hreg, ⟨hexact, hpassword⟩, hverify⟩
      · exact fun _ => ⟨token, htoken⟩
    · constructor
      · exact fun token htoken => absurd htoken (hno token)
      · rintro ⟨reg, hreg, hmatches⟩
        exact absurd hmatches.password (hrefused reg hreg (congrArg cstr hmatches.email))

theorem login_runs {w : World} {info : UserInfo} {user : User} {token : Bytes}
    (hsome : (w.users.select (·.email = cstr info.email)).head? = some user)
    (hhash : user.password = P.sha256 info.password)
    (htoken : JwtUtils.createJwt P lib now user.id = .ok token) (hne : token ≠ []) :
    ∃ calls w' answer,
      Prog.Exec (World.does faults order) w (serve P (.login info)) calls w' answer ∧
      LoginServed P lib now calls := by
  have hload : Prog.Exec (World.does faults order) w (UserDAO.getUserByEmail info.email)
      [cleared .user, ⟨.selectUser (cstr info.email), Except.ok (some user)⟩] (w.setMsg .user [])
      (some user) := by
    refine .call rfl (.call (Or.inl ⟨?_, rfl⟩) (.ret _ _))
    change Except.ok (some user) = Except.ok ((w.users.select (·.email = cstr info.email)).head?)
    rw [hsome]
  refine ⟨[cleared .user, ⟨.selectUser (cstr info.email), Except.ok (some user)⟩] ++
    [⟨.createJwt user.id, Except.ok token⟩], w.setMsg .user [], .obj [(ascii "token", .str token),
      (ascii "user_id", .int user.id), (ascii "name", .str user.name)], ?_, ?_, ?_⟩
  · refine Prog.exec_bind_iff.mpr ⟨_, _, _, _, hload, ?_, rfl⟩
    dsimp only
    rw [if_neg (not_not.mpr hhash)]
    obtain ⟨b, rest, rfl⟩ := List.exists_cons_of_ne_nil hne
    exact .call rfl (.ret _ _)
  · intro email f h
    simp only [cleared, List.cons_append, List.nil_append, List.mem_cons, List.not_mem_nil,
      or_false] at h
    rcases h with h | h | h
    all_goals cases h
  · intro userId result h
    simp only [cleared, List.cons_append, List.nil_append, List.mem_cons, List.not_mem_nil,
      or_false] at h
    rcases h with h | h | h
    · cases h
    · cases h
    · cases h
      exact htoken.symm

end Login

/-- SHA-256 of the one password used below. -/
def sha256Digest (password : Bytes) : Bytes :=
  if password = ascii "pw" then
    [48, 201, 82, 250, 177, 34, 195, 249, 117, 159, 2, 166, 217, 92, 55, 88, 178, 70, 180, 254, 226,
      57, 149, 123, 45, 79, 238, 70, 226, 97, 112, 196]
  else []

def signing : Platform where
  json := { dump := fun _ => none, parse := fun _ => .error .parseError }
  getenv name := if name = ascii "JWT_SECRET" then some (ascii "secret") else none
  sha256 := AuthUtils.sha256 sha256Digest

def plainTokens : JwtLib where
  sign _ _ subject _ _ := .ok (46 :: subject)
  verify _ _ token _ :=
    match token with
    | 46 :: subject => .ok subject
    | _ => .error .unknown

theorem signing_working : JwtUtils.Working signing plainTokens where
  correct _ _ subject _ _ := ⟨46 :: subject, rfl, List.cons_ne_nil _ _, fun _ _ _ => rfl⟩
  secret := by decide
  lifetime := by decide

def nulEmail (last : UInt8) : Bytes := ascii "a" ++ [nul, last]

def nulUser (last : UInt8) : UserInfo := ⟨ascii "n", nulEmail last, ascii "pw"⟩

/-- The registration of `a\0b`. -/
def nulRegistration : Registration := ⟨nulUser 98, 1⟩

theorem register_runs : ∃ w, Reaches (Registry.Step signing .never ⟨id, fun _ => .refl _⟩)
      ⟨.initial (.empty User User.id) ∅, []⟩ ⟨w, [nulRegistration]⟩ ∧
    w.users.rows = [nulRegistration.row signing] := by
  have hexec : ∃ calls w, Prog.Exec (World.does .never ⟨id, fun _ => .refl _⟩)
      (.initial (.empty User User.id) ∅) (serve signing (.createUser (nulUser 98))) calls w
      (.status (ascii "created")) ∧
      w.users.rows = [] ++ [nulRegistration.row signing] :=
    ⟨_, _, .call (r := ()) rfl (.call (Or.inl ⟨rfl, by nofun, 1, by decide, by decide, by decide, rfl⟩)
      (.ret _ _)), rfl⟩
  obtain ⟨calls, w, hexec, hrows⟩ := hexec
  refine ⟨w, ?_, hrows⟩
  have hstep := Registry.Step.mk (s := ⟨.initial (.empty User User.id) ∅, []⟩) (.served hexec)
  rw [registered_created (by decide) hrows] at hstep
  exact Runs.snoc .refl hstep trivial

theorem nul_login_runs {w : World} (last : UInt8)
    (hrows : w.users.rows = [nulRegistration.row signing]) :
    ∃ calls w' answer, Prog.Exec (World.does .never ⟨id, fun _ => .refl _⟩) w
      (serve signing (.login (nulUser last))) calls w' answer ∧
      LoginServed signing plainTokens 0 calls := by
  have hselect : (w.users.select (·.email = cstr (nulUser last).email)).head? =
      some (nulRegistration.row signing) := by
    rw [Table.select, hrows]
    rfl
  have htoken : JwtUtils.createJwt signing plainTokens 0 (nulRegistration.row signing).id =
      .ok (ascii ".1") := by
    decide
  exact login_runs hselect (AuthUtils.cstr_sha256 sha256Digest (ascii "pw")) htoken (by decide)

theorem registered_login : ∃ w calls w' answer,
    Reaches (Registry.Step signing .never ⟨id, fun _ => .refl _⟩)
      ⟨.initial (.empty User User.id) ∅, []⟩ ⟨w, [nulRegistration]⟩ ∧
    Prog.Exec (World.does .never ⟨id, fun _ => .refl _⟩) w (serve signing (.login (nulUser 98)))
      calls w' answer ∧
    Authenticates signing sha256Digest plainTokens 0 [nulRegistration] (nulUser 98) answer := by
  obtain ⟨w, hrun, hrows⟩ := register_runs
  obtain ⟨calls, w', answer, hexec, hserved⟩ := nul_login_runs 98 hrows
  refine ⟨w, calls, w', answer, hrun, hexec, ?_⟩
  apply (authenticates_iff rfl signing_working rfl rfl hrun hexec hserved).mpr
  intro reg hreg hcollides
  obtain rfl := List.mem_singleton.mp hreg
  exact hcollides.other rfl

/-- User `a\0b` is registered, and `a\0c` gets a token. -/
theorem nul_login_admitted :
    ¬ ∀ s : Registry, Reaches (Registry.Step signing .never ⟨id, fun _ => .refl _⟩)
        ⟨.initial (.empty User User.id) ∅, []⟩ s →
      ∀ (info : UserInfo) (calls : History) (w' : World) (answer : Json),
        Prog.Exec (World.does .never ⟨id, fun _ => .refl _⟩) s.world (serve signing (.login info))
          calls w' answer → LoginServed signing plainTokens 0 calls →
        Authenticates signing sha256Digest plainTokens 0 s.log info answer := by
  intro h
  obtain ⟨w, hrun, hrows⟩ := register_runs
  obtain ⟨calls, w', answer, hexec, hserved⟩ := nul_login_runs 99 hrows
  have hright := h _ hrun _ _ _ _ hexec hserved
  have hs := Registry.logged_of_reaches rfl rfl hrun
  rcases hs.login rfl signing_working hserved hexec with ⟨_, -, -, -, token, htoken, -⟩ | ⟨hno, -⟩
  · obtain ⟨reg, hreg, hmatches, -⟩ := hright.registered token htoken
    obtain rfl := List.mem_singleton.mp hreg
    exact absurd hmatches.email (by decide)
  · exact hno nulRegistration (List.mem_singleton.mpr rfl) rfl rfl

end Service
end ResourceServer
