import ResourceServer.Http.Mediation

/-!
# Resource ids

Three routes read the id of a resource from the query string with `atoi`, one reads it from
a JSON body. The characters or the JSON type are checked, the magnitude is not.
-/

namespace ResourceServer
namespace Http

open CString Service

variable {lib : JsonLib} {verify : Bytes → Option ℤ} {r : Request} {n : ℤ}
  {query : ℤ → ℤ → ServiceQuery}

def FitsInt (n : ℤ) : Prop := -2 ^ 31 ≤ n ∧ n ≤ intMax

instance (n : ℤ) : Decidable (FitsInt n) := inferInstanceAs (Decidable (_ ∧ _))

/-- The integers that the JSON library keeps as such. -/
def FitsJson (n : ℤ) : Prop := -2 ^ 63 ≤ n ∧ n < 2 ^ 64

/-- The integers that do not round to an infinite `double`. -/
def FitsDouble (n : ℤ) : Prop := |n| < 2 ^ 1024 - 2 ^ 970

theorem FitsInt.fitsJson (h : FitsInt n) : FitsJson n := by
  unfold FitsInt intMax at h
  unfold FitsJson
  omega

/-- A request that names the resource `n`, with the service function of its route. The JSON
library reads an integer of more than 64 bits as a `double`, and throws `out_of_range` if that
is infinite. -/
inductive Names (lib : JsonLib) (r : Request) : ℤ → (ℤ → ℤ → ServiceQuery) → Prop where
  | get {d : Bytes} (hhandler : r.handler = .getResources) (hne : d ≠ [])
      (hd : ∀ b ∈ d, isDigit b = true) (hquery : queryOf r.target = some (ascii "id=" ++ d)) :
      Names lib r (digitsValue d) .getResource
  | delete {d : Bytes} (hhandler : r.handler = .deleteResource) (hne : d ≠ [])
      (hd : ∀ b ∈ d, isDigit b = true) (hquery : queryOf r.target = some (ascii "id=" ++ d)) :
      Names lib r (digitsValue d) .deleteResource
  | download {d : Bytes} (hhandler : r.handler = .createDownloadUrl) (hne : d ≠ [])
      (hd : ∀ b ∈ d, isDigit b = true) (hquery : queryOf r.target = some (ascii "resource_id=" ++ d)) :
      Names lib r (digitsValue d) .getFileDownloadUrl
  | put {n : ℤ} {j : Json} {title content : Bytes} (hhandler : r.handler = .putResource)
      (hparse : lib.parse r.body = .ok j) (hwide : FitsJson n) (hid : j.get? (ascii "id") = some (.int n))
      (htitle : optionalField j "title" Json.asString? [] = some title)
      (hcontent : optionalField j "content" Json.asString? [] = some content) :
      Names lib r n fun u id => .updateResource ⟨id, u, title, content, false⟩
  | putWide {n : ℤ} {j : Json} {bits : UInt64} (query : ℤ → ℤ → ServiceQuery)
      (hhandler : r.handler = .putResource) (hparse : lib.parse r.body = .ok j)
      (hwide : ¬ FitsJson n) (hdouble : FitsDouble n)
      (hid : j.get? (ascii "id") = some (.float bits)) : Names lib r n query
  | putHuge {n : ℤ} (query : ℤ → ℤ → ServiceQuery) (hhandler : r.handler = .putResource)
      (hparse : lib.parse r.body = .error .other) (hwide : ¬ FitsJson n) (hhuge : ¬ FitsDouble n) :
      Names lib r n query

/-- The service is called with `n` itself, or the request is rejected because `n` is no `int`. -/
def DecodesId (lib : JsonLib) (verify : Bytes → Option ℤ) (r : Request) (u n : ℤ)
    (query : ℤ → ServiceQuery) : Prop :=
  ∀ calls result, Prog.Exec (oracle verify) () (handle lib r) calls () result →
    if FitsInt n then
      ∃ response : Json, calls =
        [⟨.getUserIdFromToken r.token, some u⟩, ⟨.ask (query n), response⟩]
    else
      calls = [⟨.getUserIdFromToken r.token, some u⟩] ∧ ∃ json, result = some (.badRequest, json)

/-- Some run asks a service about the resource `id`. -/
def AsksAbout (lib : JsonLib) (verify : Bytes → Option ℤ) (r : Request) (id : ℤ) : Prop :=
  ∃ calls result q response, Prog.Exec (oracle verify) () (handle lib r) calls () result ∧
    ⟨.ask q, response⟩ ∈ calls ∧ q.resourceId = some id

theorem parseQuery_pair {name value : Bytes} (hname : 61 ∉ name) :
    parseQuery (name ++ 61 :: value) = (name, value) := by
  have hfind : strchr (name ++ 61 :: value) 61 = some name.length := by
    rw [strchr, List.findIdx?_eq_some_iff_getElem]
    refine ⟨by simp, by simp, fun i hi => ?_⟩
    rw [List.getElem_append_left hi]
    intro heq
    exact hname (beq_iff_eq.mp heq ▸ List.getElem_mem hi)
  rw [parseQuery, hfind]
  simp

theorem numberParameter_digits {name d : Bytes} (hname : 61 ∉ name) (hne : d ≠ [])
    (hd : ∀ b ∈ d, isDigit b = true) : numberParameter (name ++ 61 :: d) name = some (atoi d) := by
  have hnumber : isNumber d = true := by
    simp only [isNumber, Bool.and_eq_true, Bool.not_eq_true', List.isEmpty_eq_false_iff,
      List.all_eq_true]
    exact ⟨hne, hd⟩
  simp [numberParameter, parseQuery_pair hname, hnumber]

/-- `atoi` reads a number that fits, and wraps or saturates any other. -/
theorem atoi_digits {d : Bytes} (hne : d ≠ []) (hd : ∀ b ∈ d, isDigit b = true)
    (hfits : FitsInt (digitsValue d)) : atoi d = digitsValue d := by
  rw [atoi, atol, Decimal.strtol_digits hne hd, Decimal.clampLong_of_le hfits.2]
  exact toInt32_of_range hfits.1 hfits.2

/-- Behind the token check stands the call of the route's service for some id, or, for an
integer of more than 64 bits, a rejection. -/
theorem Names.handle_eq (h : Names lib r n query) :
    (∃ id success, handle lib r = withUser r (fun u => respond lib success (query u id)) ∧
        (∀ u i, (query u i).resourceId = some i) ∧ (FitsInt n → id = n) ∧
        (r.handler = .putResource → FitsJson n)) ∨
      (r.handler = .putResource ∧ ¬ FitsJson n ∧ ∃ code json,
        handle lib r = withUser r (fun _ => refuse code json) ∧
          (code = .badRequest ↔ FitsDouble n)) := by
  have hid : (61 : UInt8) ∉ ascii "id" := by decide
  have hresource : (61 : UInt8) ∉ ascii "resource_id" := by decide
  cases h with
  | @get d hhandler hne hd hquery =>
    refine Or.inl ⟨atoi d, .getResource, ?_, fun _ _ => rfl, atoi_digits hne hd, ?_⟩
    · have hnumber : numberParameter (ascii "id=" ++ d) (ascii "id") = some (atoi d) :=
        numberParameter_digits hid hne hd
      simp only [handle, hhandler, handleGetResources, hquery, hnumber]
    · rw [hhandler]
      nofun
  | @delete d hhandler hne hd hquery =>
    refine Or.inl ⟨atoi d, .deleteResource, ?_, fun _ _ => rfl, atoi_digits hne hd, ?_⟩
    · have hnumber : numberParameter (ascii "id=" ++ d) (ascii "id") = some (atoi d) :=
        numberParameter_digits hid hne hd
      simp only [handle, hhandler, handleDeleteResource, hquery, Option.bind_some, hnumber]
    · rw [hhandler]
      nofun
  | @download d hhandler hne hd hquery =>
    refine Or.inl ⟨atoi d, .getResource, ?_, fun _ _ => rfl, atoi_digits hne hd, ?_⟩
    · have hnumber : numberParameter (ascii "resource_id=" ++ d) (ascii "resource_id") =
          some (atoi d) := numberParameter_digits hresource hne hd
      simp only [handle, hhandler, handleCreateDownloadUrl, hquery, Option.bind_some, hnumber]
    · rw [hhandler]
      nofun
  | @put n j title content hhandler hparse hwide hid htitle hcontent =>
    refine Or.inl ⟨toInt32 n, .updateResource, ?_, fun _ _ => rfl,
      fun hfits => toInt32_of_range hfits.1 hfits.2, fun _ => hwide⟩
    simp only [handle, hhandler, handlePutResource, withBody, hparse, hid, Option.bind_some,
      Json.asInt?, htitle, hcontent]
  | @putWide n j bits query hhandler hparse hwide hdouble hid =>
    refine Or.inr ⟨hhandler, hwide, .badRequest, errorText "invalid id", ?_, iff_of_true rfl hdouble⟩
    simp only [handle, hhandler, handlePutResource, withBody, hparse, hid, Option.bind_some,
      Json.asInt?]
  | @putHuge n query hhandler hparse hwide hhuge =>
    refine Or.inr ⟨hhandler, hwide, .internalError, errorText "internal error", ?_,
      iff_of_false nofun hhuge⟩
    simp only [handle, hhandler, handlePutResource, withBody, hparse]

theorem Names.decodes_of_fits (h : Names lib r n query) {u : ℤ} (hu : verify r.token = some u)
    (hfits : FitsInt n) : DecodesId lib verify r u n (query u) := by
  intro calls result hexec
  rw [if_pos hfits]
  rcases h.handle_eq with ⟨id, success, hhandle, -, hid, -⟩ | ⟨-, hwide, -⟩
  · rw [hhandle, exec_withUser_iff hu] at hexec
    obtain ⟨rest, rfl, hrest⟩ := hexec
    obtain ⟨response, rfl, -⟩ := exec_respond.mp hrest
    rw [hid hfits]
    exact ⟨response, rfl⟩
  · exact absurd hfits.fitsJson hwide

theorem Names.asksAbout (h : Names lib r n query) {u id : ℤ} (hu : verify r.token = some u)
    (hfits : FitsInt n) (hasks : AsksAbout lib verify r id) : id = n := by
  obtain ⟨calls, result, q, response, hexec, hmem, hq⟩ := hasks
  rcases h.handle_eq with ⟨id', success, hhandle, hquery, hid, -⟩ | ⟨-, hwide, -⟩
  · rw [hhandle, exec_withUser_iff hu] at hexec
    obtain ⟨rest, rfl, hrest⟩ := hexec
    obtain ⟨response', rfl, -⟩ := exec_respond.mp hrest
    have hask : q = query u id' := by
      rcases List.mem_cons.mp hmem with heq | hmem
      · cases heq
      · cases List.mem_singleton.mp hmem
        rfl
    rw [hask, hquery u id', Option.some.injEq] at hq
    rw [← hq, hid hfits]
  · exact absurd hfits.fitsJson hwide

/-- A handler decodes a number exactly if and only if it fits an `int`, or the JSON library
takes it for a finite number that is no integer; two numbers that fit are two ids. -/
theorem resource_id_exact_iff {u : ℤ} (h : Names lib r n query) (hu : verify r.token = some u) :
    (DecodesId lib verify r u n (query u) ↔
      FitsInt n ∨ r.handler = .putResource ∧ ¬ FitsJson n ∧ FitsDouble n) ∧
    ∀ r' n' query', Names lib r' n' query' → (∃ u', verify r'.token = some u') → FitsInt n →
      FitsInt n' → n ≠ n' → ∀ id, ¬ (AsksAbout lib verify r id ∧ AsksAbout lib verify r' id) := by
  constructor
  · by_cases hfits : FitsInt n
    · exact iff_of_true (h.decodes_of_fits hu hfits) (Or.inl hfits)
    · rcases h.handle_eq with ⟨id, success, hhandle, -, -, hjson⟩ |
        ⟨hput, hwide, code, json, hhandle, hcode⟩
      · refine iff_of_false (fun hdecodes => ?_) ?_
        · have hrun : Prog.Exec (oracle verify) () (handle lib r)
              [⟨.getUserIdFromToken r.token, some u⟩, ⟨.ask (query u id), Json.null⟩] ()
              (answer lib success .null) := by
            rw [hhandle, exec_withUser_iff hu]
            exact ⟨_, rfl, exec_respond.mpr ⟨.null, rfl, rfl⟩⟩
          have hcalls := hdecodes _ _ hrun
          rw [if_neg hfits] at hcalls
          cases hcalls.1
        · rintro (hfits' | ⟨hput, hwide, -⟩)
          · exact hfits hfits'
          · exact hwide (hjson hput)
      · have hruns {calls : List (Event services)} {result : HandlerResult} :
            Prog.Exec (oracle verify) () (handle lib r) calls () result ↔
              calls = [⟨.getUserIdFromToken r.token, some u⟩] ∧ result = some (code, json) := by
          rw [hhandle, exec_withUser_iff hu]
          constructor
          · rintro ⟨rest, rfl, hrest⟩
            obtain ⟨rfl, -, rfl⟩ := Prog.exec_ret_iff.mp hrest
            exact ⟨rfl, rfl⟩
          · rintro ⟨rfl, rfl⟩
            exact ⟨[], rfl, .ret () _⟩
        constructor
        · intro hdecodes
          have hresult := hdecodes _ _ (hruns.mpr ⟨rfl, rfl⟩)
          rw [if_neg hfits] at hresult
          obtain ⟨json', hjson'⟩ := hresult.2
          cases hjson'
          exact Or.inr ⟨hput, hwide, hcode.mp rfl⟩
        · rintro (hfits' | ⟨-, -, hdouble⟩)
          · exact absurd hfits' hfits
          · intro calls result hexec
            obtain ⟨rfl, rfl⟩ := hruns.mp hexec
            rw [if_neg hfits, hcode.mpr hdouble]
            exact ⟨rfl, json, rfl⟩
  · rintro r' n' query' h' ⟨u', hu'⟩ hfits hfits' hne id ⟨hasks, hasks'⟩
    exact hne ((h.asksAbout hu hfits hasks).symm.trans (h'.asksAbout hu' hfits' hasks'))

/-- `GET` for the resource `d` of whoever holds the token `t`. -/
def idRequest (d : String) : Request :=
  ⟨.getResources, .get, ascii ("/api/resources?id=" ++ d), ascii "t", []⟩

theorem idRequest_names : Names lib (idRequest "17") 17 .getResource := by
  have hvalue : digitsValue (ascii "17") = 17 := by decide +kernel
  have h : Names lib (idRequest "17") (digitsValue (ascii "17")) .getResource :=
    .get rfl (by decide +kernel) (by decide +kernel) (by decide +kernel)
  rwa [hvalue] at h

theorem seventeen_decoded :
    DecodesId emptyListLib (fun _ => some 7) (idRequest "17") 7 17 (.getResource 7) :=
  (resource_id_exact_iff idRequest_names rfl).1.mpr (Or.inl (by decide))

/-- The number 4294967297 is taken for the id 1. -/
theorem wrapped_id :
    ¬ DecodesId emptyListLib (fun _ => some 7) (idRequest "4294967297") 7 4294967297 (.getResource 7) ∧
      AsksAbout emptyListLib (fun _ => some 7) (idRequest "4294967297") 1 := by
  have hnumber : (queryOf (idRequest "4294967297").target).map (numberParameter · (ascii "id")) =
      some (some 1) := by decide +kernel
  have hrun : Prog.Exec (oracle fun _ => some 7) () (handle emptyListLib (idRequest "4294967297"))
      [⟨.getUserIdFromToken (ascii "t"), some 7⟩, ⟨.ask (.getResource 7 1), Json.null⟩] ()
      (answer emptyListLib .getResource .null) := by
    obtain ⟨query, hquery, hid⟩ := Option.map_eq_some_iff.mp hnumber
    refine (exec_withUser_iff rfl).mpr ⟨_, rfl, ?_⟩
    simp only [hquery, hid]
    exact exec_respond.mpr ⟨.null, rfl, rfl⟩
  constructor
  · intro hdecodes
    have hcalls := hdecodes _ _ hrun
    rw [if_neg (by decide)] at hcalls
    cases hcalls.1
  · exact ⟨_, _, _, _, hrun, List.mem_cons_of_mem _ List.mem_cons_self, rfl⟩

end Http
end ResourceServer
