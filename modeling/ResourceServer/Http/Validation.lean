import ResourceServer.Http.Mediation

/-!
# Validation of request bodies

Five handlers parse a JSON body and check its fields one by one before they call their
service. What each should accept is a table of fields; the handlers follow it except in
three places.
-/

namespace ResourceServer
namespace Http

open CString Service

inductive FieldType where
  | string | boolean | integer
  deriving DecidableEq, Repr

def FieldType.admits : FieldType → Json → Bool
  | .string, .str _ | .boolean, .bool _ | .integer, .int _ => true
  | _, _ => false

structure Field where
  key : String
  type : FieldType
  required : Bool
  deriving DecidableEq, Repr

/-- The field has its type, or is absent and optional. -/
def Field.fits (f : Field) (j : Json) : Bool :=
  match j.get? (ascii f.key) with
  | none => !f.required
  | some value => f.type.admits value

def isObject : Json → Bool
  | .obj _ => true
  | _ => false

namespace Handler

def readsBody : Handler → Bool
  | .register | .login | .postResource | .putResource | .createUploadUrl => true
  | _ => false

def fields : Handler → List Field
  | .register => [⟨"name", .string, true⟩, ⟨"email", .string, true⟩, ⟨"password", .string, true⟩]
  | .login => [⟨"email", .string, true⟩, ⟨"password", .string, true⟩]
  | .postResource =>
    [⟨"title", .string, false⟩, ⟨"content", .string, false⟩, ⟨"is_file", .boolean, false⟩]
  | .putResource =>
    [⟨"id", .integer, true⟩, ⟨"title", .string, false⟩, ⟨"content", .string, false⟩]
  | .createUploadUrl => [⟨"filename", .string, true⟩, ⟨"content_type", .string, true⟩]
  | _ => []

def expects (k : Handler) (j : Json) : Bool := isObject j && k.fields.all (·.fits j)

/-- The bodies that a handler neither expects nor refuses: `POST` checks the fields of an
object only, and `PUT` only the id. -/
def slips (k : Handler) (j : Json) : Bool :=
  match k with
  | .postResource => !isObject j
  | .putResource => (Field.mk "id" .integer true).fits j && !k.expects j
  | _ => false

end Handler

theorem stringField_isSome (j : Json) (key : String) :
    (stringField j key).isSome = (Field.mk key .string true).fits j := by
  unfold stringField Field.fits
  cases j.get? (ascii key) with
  | none => rfl
  | some value => cases value <;> rfl

theorem optionalString_isSome (j : Json) (key : String) (absent : Bytes) :
    (optionalField j key Json.asString? absent).isSome = (Field.mk key .string false).fits j := by
  unfold optionalField Field.fits
  cases j.get? (ascii key) with
  | none => rfl
  | some value => cases value <;> rfl

theorem optionalBool_isSome (j : Json) (key : String) (absent : Bool) :
    (optionalField j key Json.asBool? absent).isSome = (Field.mk key .boolean false).fits j := by
  unfold optionalField Field.fits
  cases j.get? (ascii key) with
  | none => rfl
  | some value => cases value <;> rfl

theorem integerField_isSome (j : Json) (key : String) :
    ((j.get? (ascii key)).bind Json.asInt?).isSome = (Field.mk key .integer true).fits j := by
  unfold Field.fits
  cases j.get? (ascii key) with
  | none => rfl
  | some value => cases value <;> rfl

theorem isObject_of_fits {f : Field} {j : Json} (hrequired : f.required = true)
    (hfits : f.fits j = true) : isObject j = true := by
  cases j with
  | obj fields => rfl
  | null | bool _ | int _ | float _ | str _ | arr _ =>
    simp [Field.fits, Json.get?, hrequired] at hfits

/-- A body that is expected goes to the service, any other is refused, unless it slips through:
then it goes to the service all the same, or throws. -/
structure Judges (lib : JsonLib) (k : Handler) (j : Json) (p : HandlerProg) : Prop where
  expected : k.expects j = true →
    ∃ success query, p = respond lib success query ∧ success ≠ .internalError
  refused : k.expects j = false → k.slips j = false →
    ∃ message, p = refuse .badRequest (errorText message)
  slipped : k.slips j = true → p = .ret none ∨ ∃ success query, p = respond lib success query

variable {lib : JsonLib} {verify : Bytes → Option ℤ} {r : Request} {k : Handler} {j : Json}

theorem Judges.respond {success : HttpCode} {query : ServiceQuery}
    (hjudge : k.expects j = true ∨ k.slips j = true) (hsuccess : success ≠ .internalError) :
    Judges lib k j (respond lib success query) where
  expected _ := ⟨success, query, rfl, hsuccess⟩
  refused hexpects hslips := by simp [hexpects, hslips] at hjudge
  slipped _ := Or.inr ⟨success, query, rfl⟩

theorem Judges.refuse {message : String} (hexpects : k.expects j = false) (hslips : k.slips j = false) :
    Judges lib k j (refuse .badRequest (errorText message)) where
  expected h := by simp [hexpects] at h
  refused _ _ := ⟨message, rfl⟩
  slipped h := by simp [hslips] at h

/-- The required fields of a body decide, whatever kind of value it is. -/
theorem expects_of_required (hne : k.fields ≠ []) (hrequired : ∀ f ∈ k.fields, f.required = true) :
    k.expects j = k.fields.all (·.fits j) := by
  rw [Handler.expects, Bool.and_eq_right_iff_imp]
  intro hall
  obtain ⟨f, hf⟩ := List.exists_mem_of_ne_nil _ hne
  exact isObject_of_fits (hrequired f hf) (List.all_eq_true.mp hall f hf)

theorem register_expects :
    Handler.register.expects j = ((stringField j "name").isSome &&
      ((stringField j "email").isSome && (stringField j "password").isSome)) := by
  rw [expects_of_required (by decide) (by decide), stringField_isSome, stringField_isSome,
    stringField_isSome]
  simp [Handler.fields]

theorem login_expects :
    Handler.login.expects j =
      ((stringField j "email").isSome && (stringField j "password").isSome) := by
  rw [expects_of_required (by decide) (by decide), stringField_isSome, stringField_isSome]
  simp [Handler.fields]

theorem createUploadUrl_expects :
    Handler.createUploadUrl.expects j =
      ((stringField j "filename").isSome && (stringField j "content_type").isSome) := by
  rw [expects_of_required (by decide) (by decide), stringField_isSome, stringField_isSome]
  simp [Handler.fields]

theorem postResource_expects :
    Handler.postResource.expects j = (isObject j &&
      ((optionalField j "title" Json.asString? []).isSome &&
        ((optionalField j "content" Json.asString? []).isSome &&
          (optionalField j "is_file" Json.asBool? false).isSome))) := by
  rw [optionalString_isSome, optionalString_isSome, optionalBool_isSome]
  simp [Handler.expects, Handler.fields]

theorem putResource_expects :
    Handler.putResource.expects j = (((j.get? (ascii "id")).bind Json.asInt?).isSome &&
      ((optionalField j "title" Json.asString? []).isSome &&
        (optionalField j "content" Json.asString? []).isSome)) := by
  rw [integerField_isSome, optionalString_isSome, optionalString_isSome]
  simp only [Handler.expects, Handler.fields, List.all_cons, List.all_nil, Bool.and_true]
  rw [Bool.and_eq_right_iff_imp, Bool.and_eq_true]
  rintro ⟨hid, -⟩
  exact isObject_of_fits rfl hid

theorem register_body (lib : JsonLib) (r : Request) : ∃ next : ℤ → Json → HandlerProg,
    (∀ u j, Judges lib .register j (next u j)) ∧ handleRegister lib r = withBody lib r (next 0) := by
  refine ⟨fun _ => _, fun u j => ?_, rfl⟩
  dsimp only
  split
  · rename_i name email password hname hemail hpassword
    exact .respond (Or.inl (by simp [register_expects, hname, hemail, hpassword])) nofun
  · rename_i hmissing
    refine .refuse ?_ rfl
    by_contra hexpects
    simp only [Bool.not_eq_false, register_expects, Bool.and_eq_true, Option.isSome_iff_exists] at hexpects
    obtain ⟨⟨name, hname⟩, ⟨email, hemail⟩, password, hpassword⟩ := hexpects
    exact hmissing name email password hname hemail hpassword

theorem login_body (lib : JsonLib) (r : Request) : ∃ next : ℤ → Json → HandlerProg,
    (∀ u j, Judges lib .login j (next u j)) ∧ handleLogin lib r = withBody lib r (next 0) := by
  refine ⟨fun _ => _, fun u j => ?_, rfl⟩
  dsimp only
  split
  · rename_i email password hemail hpassword
    exact .respond (Or.inl (by simp [login_expects, hemail, hpassword])) nofun
  · rename_i hmissing
    refine .refuse ?_ rfl
    by_contra hexpects
    simp only [Bool.not_eq_false, login_expects, Bool.and_eq_true, Option.isSome_iff_exists] at hexpects
    obtain ⟨⟨email, hemail⟩, password, hpassword⟩ := hexpects
    exact hmissing email password hemail hpassword

theorem createUploadUrl_body (lib : JsonLib) (r : Request) : ∃ next : ℤ → Json → HandlerProg,
    (∀ u j, Judges lib .createUploadUrl j (next u j)) ∧
      handleCreateUploadUrl lib r = withUser r fun u => withBody lib r (next u) := by
  refine ⟨_, fun u j => ?_, rfl⟩
  split
  · rename_i filename contentType hfilename hcontentType
    exact .respond (Or.inl (by simp [createUploadUrl_expects, hfilename, hcontentType])) nofun
  · rename_i hmissing
    refine .refuse ?_ rfl
    by_contra hexpects
    simp only [Bool.not_eq_false, createUploadUrl_expects, Bool.and_eq_true,
      Option.isSome_iff_exists] at hexpects
    obtain ⟨⟨filename, hfilename⟩, contentType, hcontentType⟩ := hexpects
    exact hmissing filename contentType hfilename hcontentType

/-- An optional field can only be refused if it is there, and then the value is an object. -/
theorem postResource_slips_of_misfit {f : Field} (h : f.fits j = false) (hf : f.required = false) :
    Handler.postResource.slips j = false := by
  cases j with
  | obj fields => rfl
  | null | bool _ | int _ | float _ | str _ | arr _ => simp [Field.fits, Json.get?, hf] at h

theorem postResource_body (lib : JsonLib) (r : Request) : ∃ next : ℤ → Json → HandlerProg,
    (∀ u j, Judges lib .postResource j (next u j)) ∧
      handlePostResource lib r = withUser r fun u => withBody lib r (next u) := by
  refine ⟨_, fun u j => ?_, rfl⟩
  split
  · rename_i htitle
    have hfits := optionalString_isSome j "title" []
    rw [htitle] at hfits
    exact .refuse (by simp [postResource_expects, htitle]) (postResource_slips_of_misfit hfits.symm rfl)
  · rename_i title htitle
    split
    · rename_i hcontent
      have hfits := optionalString_isSome j "content" []
      rw [hcontent] at hfits
      exact .refuse (by simp [postResource_expects, hcontent])
        (postResource_slips_of_misfit hfits.symm rfl)
    · rename_i content hcontent
      split
      · rename_i hisFile
        have hfits := optionalBool_isSome j "is_file" false
        rw [hisFile] at hfits
        exact .refuse (by simp [postResource_expects, hisFile])
          (postResource_slips_of_misfit hfits.symm rfl)
      · rename_i isFile hisFile
        refine .respond ?_ nofun
        cases hj : isObject j with
        | true => exact Or.inl (by simp [postResource_expects, hj, htitle, hcontent, hisFile])
        | false => exact Or.inr (by simp [Handler.slips, hj])

theorem putResource_body (lib : JsonLib) (r : Request) : ∃ next : ℤ → Json → HandlerProg,
    (∀ u j, Judges lib .putResource j (next u j)) ∧
      handlePutResource lib r = withUser r fun u => withBody lib r (next u) := by
  refine ⟨_, fun u j => ?_, rfl⟩
  have hfits := integerField_isSome j "id"
  split
  · rename_i hid
    rw [hid] at hfits
    exact .refuse (by simp [putResource_expects, hid]) (by simp [Handler.slips, ← hfits])
  · rename_i id hid
    rw [hid] at hfits
    split
    · rename_i title content htitle hcontent
      exact .respond (Or.inl (by simp [putResource_expects, hid, htitle, hcontent])) nofun
    · rename_i hwrong
      have hexpects : Handler.putResource.expects j = false := by
        by_contra hexpects
        simp only [Bool.not_eq_false, putResource_expects, Bool.and_eq_true,
          Option.isSome_iff_exists] at hexpects
        obtain ⟨-, ⟨title, htitle⟩, content, hcontent⟩ := hexpects
        exact hwrong title content htitle hcontent
      exact {
        expected h := by simp [hexpects] at h
        refused _ h := by simp [Handler.slips, hexpects, ← hfits] at h
        slipped _ := Or.inl rfl }

theorem handle_body (lib : JsonLib) (r : Request) (hbody : r.handler.readsBody = true) :
    ∃ next : ℤ → Json → HandlerProg, (∀ u j, Judges lib r.handler j (next u j)) ∧
      handle lib r = if r.handler.requiresToken then withUser r fun u => withBody lib r (next u)
        else withBody lib r (next 0) := by
  unfold handle
  cases hk : r.handler with
  | register => exact register_body lib r
  | login => exact login_body lib r
  | createUploadUrl => exact createUploadUrl_body lib r
  | postResource => exact postResource_body lib r
  | putResource => exact putResource_body lib r
  | logout | getResources | deleteResource | createDownloadUrl | health => simp [hk, Handler.readsBody] at hbody

theorem slips_of_expects (hexpects : k.expects j = true) : k.slips j = false := by
  unfold Handler.slips
  split
  · have := (Bool.and_eq_true _ _ ▸ hexpects : isObject j = true ∧ _).1
    simp [this]
  · simp [hexpects]
  · rfl

/-- A service that returns normally: its answer can be written, and so can its error. -/
def Normal (lib : JsonLib) : Event services → Prop
  | ⟨.getUserIdFromToken _, _⟩ => True
  | ⟨.ask _, response⟩ => (lib.dump response).isSome ∧ (errorMessage lib response).isSome

def HasExpectedBody (lib : JsonLib) (r : Request) : Prop :=
  ∃ j, lib.parse r.body = .ok j ∧ r.handler.expects j = true

/-- A run of a handler that has validated its body. -/
structure Validated (lib : JsonLib) (r : Request) (calls : List (Event services))
    (result : HandlerResult) : Prop where
  returns : ∃ code json, result = some (code, json) ∧ code ≠ .internalError
  checked : ∀ query, ∀ response : Json, ⟨.ask query, response⟩ ∈ calls → HasExpectedBody lib r
  refused : ¬ HasExpectedBody lib r → ∃ message, result = some (.badRequest, errorText message)

/-- Every run in which the services return normally has validated the body. -/
def Validates (lib : JsonLib) (verify : Bytes → Option ℤ) (r : Request) : Prop :=
  ∀ calls result, Prog.Exec (oracle verify) () (handle lib r) calls () result →
    (∀ e ∈ calls, Normal lib e) → Validated lib r calls result

theorem withBody_ok {next : Json → HandlerProg} (hparse : lib.parse r.body = .ok j) :
    withBody lib r next = next j := by
  rw [withBody, hparse]

theorem withBody_parseError {next : Json → HandlerProg} (hparse : lib.parse r.body = .error .parseError) :
    withBody lib r next = refuse .badRequest (errorText "invalid JSON format") := by
  rw [withBody, hparse]

theorem withBody_other {next : Json → HandlerProg} (hparse : lib.parse r.body = .error .other) :
    withBody lib r next = refuse .internalError (errorText "internal error") := by
  rw [withBody, hparse]

theorem handle_body_exec (lib : JsonLib) {u : ℤ} (hbody : r.handler.readsBody = true) (hu : verify r.token = some u) :
    ∃ (check : List (Event services)) (next : Json → HandlerProg),
      (∀ e ∈ check, e = ⟨.getUserIdFromToken r.token, some u⟩) ∧
      (∀ j, Judges lib r.handler j (next j)) ∧
      ∀ calls result, Prog.Exec (oracle verify) () (handle lib r) calls () result ↔
        ∃ rest, calls = check ++ rest ∧
          Prog.Exec (oracle verify) () (withBody lib r next) rest () result := by
  obtain ⟨next, hjudges, hhandle⟩ := handle_body lib r hbody
  rw [hhandle]
  cases r.handler.requiresToken with
  | true => exact ⟨[_], next u, by simp, hjudges u, fun calls result => exec_withUser_iff hu⟩
  | false => exact ⟨[], next 0, by simp, hjudges 0, fun calls result => by simp⟩

theorem answer_of_normal {success : HttpCode} {query : ServiceQuery} {response : Json}
    (hsuccess : success ≠ .internalError) (hnormal : Normal lib ⟨.ask query, response⟩) :
    ∃ code json, answer lib success response = some (code, json) ∧ code ≠ .internalError := by
  obtain ⟨hdump, hmessage⟩ := hnormal
  obtain ⟨text, htext⟩ := Option.isSome_iff_exists.mp hdump
  obtain ⟨message, hmessage⟩ := Option.isSome_iff_exists.mp hmessage
  rw [answer, htext, Option.bind_some, hmessage]
  split_ifs
  · exact ⟨.badRequest, text, rfl, nofun⟩
  · exact ⟨success, text, rfl, hsuccess⟩

theorem validates_of_no_slip {u : ℤ} (hbody : r.handler.readsBody = true)
    (hu : verify r.token = some u) (hfailure : lib.parse r.body ≠ .error .other)
    (hslips : ∀ j, lib.parse r.body = .ok j → r.handler.slips j = false) : Validates lib verify r := by
  intro calls result hexec hnormal
  obtain ⟨check, next, hcheck, hjudges, hruns⟩ := handle_body_exec lib hbody hu
  obtain ⟨rest, rfl, hrest⟩ := (hruns calls result).mp hexec
  have hask (query : ServiceQuery) (response : Json) (hmem : ⟨.ask query, response⟩ ∈ check ++ rest) :
      (⟨.ask query, response⟩ : Event services) ∈ rest :=
    (List.mem_append.mp hmem).resolve_left fun h => by cases hcheck _ h
  have hrefused (message : String)
      (hrest : Prog.Exec (oracle verify) () (refuse .badRequest (errorText message)) rest () result) :
      Validated lib r (check ++ rest) result := by
    obtain ⟨rfl, -, rfl⟩ := Prog.exec_ret_iff.mp hrest
    refine ⟨⟨_, _, rfl, nofun⟩, fun query response h => ?_, fun _ => ⟨message, rfl⟩⟩
    cases hask query response h
  cases hparse : lib.parse r.body with
  | error failure =>
    cases failure with
    | parseError =>
      rw [withBody_parseError hparse] at hrest
      exact hrefused _ hrest
    | other => exact absurd hparse hfailure
  | ok j =>
    rw [withBody_ok hparse] at hrest
    cases hexpects : r.handler.expects j with
    | true =>
      obtain ⟨success, query, hnext, hsuccess⟩ := (hjudges j).expected hexpects
      rw [hnext] at hrest
      obtain ⟨response, rfl, rfl⟩ := exec_respond.mp hrest
      have hbody : HasExpectedBody lib r := ⟨j, hparse, hexpects⟩
      exact ⟨answer_of_normal hsuccess (hnormal ⟨.ask query, response⟩ (by simp)),
        fun _ _ _ => hbody, fun h => absurd hbody h⟩
    | false =>
      obtain ⟨message, hnext⟩ := (hjudges j).refused hexpects (hslips j hparse)
      rw [hnext] at hrest
      exact hrefused message hrest

theorem not_validates_of_slip {u : ℤ} (hbody : r.handler.readsBody = true)
    (hu : verify r.token = some u) (hdump : (lib.dump .null).isSome) {j : Json}
    (hparse : lib.parse r.body = .ok j) (hslips : r.handler.slips j = true) :
    ¬ Validates lib verify r := by
  intro hvalidates
  obtain ⟨check, next, hcheck, hjudges, hruns⟩ := handle_body_exec lib hbody hu
  have hchecked : ∀ e ∈ check, Normal lib e := by
    intro e he
    rw [hcheck e he]
    trivial
  rcases (hjudges j).slipped hslips with hnext | ⟨success, query, hnext⟩
  · have hrun : Prog.Exec (oracle verify) () (handle lib r) (check ++ []) () none := by
      refine (hruns _ _).mpr ⟨[], rfl, ?_⟩
      rw [withBody_ok hparse, hnext]
      exact .ret () none
    obtain ⟨code, json, hresult, -⟩ := (hvalidates _ _ hrun (by simpa using hchecked)).returns
    cases hresult
  · have hrun : Prog.Exec (oracle verify) () (handle lib r) (check ++ [⟨.ask query, Json.null⟩]) ()
        (answer lib success .null) := by
      refine (hruns _ _).mpr ⟨_, rfl, ?_⟩
      rw [withBody_ok hparse, hnext]
      exact exec_respond.mpr ⟨.null, rfl, rfl⟩
    have hnormal : ∀ e ∈ check ++ [⟨.ask query, Json.null⟩], Normal lib e := by
      intro e he
      rcases List.mem_append.mp he with he | he
      · exact hchecked e he
      · rw [List.mem_singleton.mp he]
        exact ⟨hdump, rfl⟩
    obtain ⟨j', hparse', hexpects⟩ := (hvalidates _ _ hrun hnormal).checked query .null (by simp)
    cases hparse.symm.trans hparse'
    rw [slips_of_expects hexpects] at hslips
    cases hslips

/-- A handler validates a body if and only if the body does not make the JSON library throw
anything but a `parse_error`, and does not slip through the checks of its fields. -/
theorem body_validated_iff {u : ℤ} (hbody : r.handler.readsBody = true)
    (hu : verify r.token = some u) (hdump : (lib.dump .null).isSome) :
    Validates lib verify r ↔ lib.parse r.body ≠ .error .other ∧
      ∀ j, lib.parse r.body = .ok j → r.handler.slips j = false := by
  constructor
  · intro hvalidates
    constructor
    · intro hparse
      obtain ⟨check, next, hcheck, -, hruns⟩ := handle_body_exec lib hbody hu
      have hrun : Prog.Exec (oracle verify) () (handle lib r) (check ++ []) ()
          (some (.internalError, errorText "internal error")) := by
        refine (hruns _ _).mpr ⟨[], rfl, ?_⟩
        rw [withBody_other hparse]
        exact .ret () _
      have hnormal : ∀ e ∈ check ++ [], Normal lib e := by
        intro e he
        rw [hcheck e (by simpa using he)]
        trivial
      obtain ⟨code, json, hresult, hcode⟩ := (hvalidates _ _ hrun hnormal).returns
      cases hresult
      exact hcode rfl
    · intro j hparse
      by_contra hslips
      rw [Bool.not_eq_false] at hslips
      exact not_validates_of_slip hbody hu hdump hparse hslips hvalidates
  · rintro ⟨hfailure, hslips⟩
    exact validates_of_no_slip hbody hu hfailure hslips

/-- A request to the route of `k` with a body. -/
def bodyRequest (k : Handler) (method : Method) (body : String) : Request :=
  ⟨k, method, ascii "/api/resources", ascii "t", ascii body⟩

/-- Reads three bodies, and writes `null` only. -/
def sampleLib : JsonLib where
  dump
    | .null => some (ascii "null")
    | _ => none
  parse body :=
    if body = ascii "5" then .ok (.int 5)
    else if body = ascii "\x7b\"title\":5\x7d" then .ok (.obj [(ascii "title", .int 5)])
    else if body = ascii "\x7b\"id\":1,\"title\":5\x7d" then
      .ok (.obj [(ascii "id", .int 1), (ascii "title", .int 5)])
    else .error .parseError

theorem wrong_title_validated :
    Validates sampleLib (fun _ => some 7) (bodyRequest .postResource .post "\x7b\"title\":5\x7d") := by
  have hparse : sampleLib.parse (ascii "\x7b\"title\":5\x7d") =
      .ok (.obj [(ascii "title", .int 5)]) := by rfl
  refine (body_validated_iff (u := 7) rfl rfl rfl).mpr ⟨fun h => ?_, fun j hj => ?_⟩
  · cases hparse.symm.trans h
  · cases hparse.symm.trans hj
    rfl

/-- `PUT` throws on a title that is a number, and `POST` stores a resource for the body 5. -/
theorem slipped_bodies :
    ¬ Validates sampleLib (fun _ => some 7)
        (bodyRequest .putResource .put "\x7b\"id\":1,\"title\":5\x7d") ∧
      ¬ Validates sampleLib (fun _ => some 7) (bodyRequest .postResource .post "5") := by
  have hput : sampleLib.parse (ascii "\x7b\"id\":1,\"title\":5\x7d") =
      .ok (.obj [(ascii "id", .int 1), (ascii "title", .int 5)]) := by rfl
  have hpost : sampleLib.parse (ascii "5") = .ok (.int 5) := by rfl
  exact ⟨not_validates_of_slip rfl rfl rfl hput (by decide +kernel),
    not_validates_of_slip rfl rfl rfl hpost (by decide +kernel)⟩

end Http
end ResourceServer
