import ResourceServer.Frontend.Contract
import ResourceServer.Service.Sharing

/-!
# The upload panel

`FileUploadPanel` asks the server for a signed URL, puts the file there, and saves the public URL
as a resource, while other users and other tabs go on. An upload that it reports as done has stored
the object, and behind it made a row that leads back to it.
-/

namespace ResourceServer

namespace Service

open CString

variable {P : Platform} {faults : Faults} {order : RowOrder} {w w' : World} {calls : History}

theorem createPresignedUrl_signed {method : ObjectMethod} {endpoint bucket key : Bytes} {expires : ℤ} {j : Json}
    (hexec : Prog.Exec (World.does faults order) w
      (createPresignedUrl P method endpoint bucket key expires) calls w' (some j))
    (hok : j.error? = none) :
    ∃ client url, ⟨.presign client method bucket key expires, Except.ok url⟩ ∈ calls ∧
      j = .obj [(ascii "url", .str url)] := by
  unfold createPresignedUrl createAwsSdkPresignedUrl at hexec
  dsimp only at hexec
  split_ifs at hexec
  · cases (Prog.exec_ret_iff.mp hexec).2.2
    exact absurd hok (Json.error?_error_ne_none _)
  · obtain ⟨signed, w₁, rest, -, rfl, hrest⟩ := exec_act_iff.mp hexec
    rcases signed with (message | t) | _ | ⟨b, url⟩
    · cases (Prog.exec_ret_iff.mp hrest).2.2
      exact absurd hok (Json.error?_error_ne_none _)
    · cases (Prog.exec_ret_iff.mp hrest).2.2
    · cases (Prog.exec_ret_iff.mp hrest).2.2
      exact absurd hok (Json.error?_error_ne_none _)
    · cases (Prog.exec_ret_iff.mp hrest).2.2
      exact ⟨_, _, List.mem_cons_self, rfl⟩
  · obtain ⟨signed, w₁, rest, -, rfl, hrest⟩ := exec_act_iff.mp hexec
    rcases signed with (message | t) | url
    · cases (Prog.exec_ret_iff.mp hrest).2.2
      exact absurd hok (Json.error?_error_ne_none _)
    · cases (Prog.exec_ret_iff.mp hrest).2.2
    · cases (Prog.exec_ret_iff.mp hrest).2.2
      exact ⟨_, _, List.mem_cons_self, rfl⟩

theorem createUploadUrl_signed {u : ℤ} {filename contentType : Bytes} {answer : Json}
    (hexec : Prog.Exec (World.does faults order) w
      (StorageService.createUploadUrl P u filename contentType) calls w' answer)
    (hok : answer.error? = none) :
    ∃ client key expires url, ⟨.presign client .put P.bucket key expires, Except.ok url⟩ ∈ calls ∧
      answer.get? (ascii "upload_url") = some (.str url) ∧
      answer.get? (ascii "object_key") = some (.str key) := by
  unfold StorageService.createUploadUrl at hexec
  cases hrefusal : uploadRefusal P filename contentType with
  | some message =>
    rw [hrefusal] at hexec
    cases (Prog.exec_ret_iff.mp hexec).2.2
    exact absurd hok (Json.error?_error_ne_none _)
  | none =>
    rw [hrefusal] at hexec
    obtain ⟨millis, w₁, rest, -, rfl, hrest⟩ := exec_act_iff.mp hexec
    obtain ⟨signing, w₂, upload, last, hsigning, hlast, rfl⟩ := Prog.exec_bind_iff.mp hrest
    cases upload with
    | none =>
      cases (Prog.exec_ret_iff.mp hlast).2.2
      exact absurd hok (Json.error?_error_ne_none _)
    | some upload =>
      dsimp only at hlast
      split_ifs at hlast with herror
      · cases (Prog.exec_ret_iff.mp hlast).2.2
        rw [hok] at herror
        cases herror
      · obtain ⟨rfl, -, rfl⟩ := Prog.exec_ret_iff.mp hlast
        rw [Bool.not_eq_true, Option.isSome_eq_false_iff, Option.isNone_iff_eq_none] at herror
        obtain ⟨client, url, hsigned, rfl⟩ := createPresignedUrl_signed hsigning herror
        exact ⟨client, _, _, url, List.mem_cons_of_mem _ (List.mem_append_left _ hsigned), rfl, rfl⟩

end Service

namespace Frontend

open CString Service

/-- A file that was picked. -/
structure File where
  name : Bytes
  type : Bytes
  deriving DecidableEq, Repr

/-- The fields of the answer that the panel reads. -/
structure UploadUrlResponse where
  uploadUrl : Bytes
  publicUrl : Bytes
  deriving DecidableEq, Repr

/-- How `axios.put` ends. -/
inductive PutOutcome where
  | stored
  | refused (status : ℕ)
  | unreachable
  | thrown (message : Option Bytes)
  deriving DecidableEq, Repr

def uploadFileToStorage : PutOutcome → Except Bytes Unit
  | .stored => .ok ()
  | .refused status => .error (ascii "File upload failed with status " ++ Decimal.ofNat status)
  | .unreachable => .error (ascii "File upload failed. Please check your connection.")
  | .thrown message => .error (message.getD (ascii "File upload failed."))

inductive PanelCall where
  | requestUploadUrl (payload : UploadUrlRequest)
  | put (uploadUrl : Bytes) (file : File)
  | createFileResource (values : ResourceFormValues)
  deriving DecidableEq, Repr

def PanelCall.Ret : PanelCall → Type
  | .requestUploadUrl _ => Except ApiError UploadUrlResponse
  | .put _ _ => PutOutcome
  | .createFileResource _ => Except ApiError Json

def panelCalls : Signature := ⟨PanelCall, PanelCall.Ret⟩

/-- `title || file.name` -/
def File.titled (file : File) (title : Bytes) : Bytes := if title = [] then file.name else title

/-- The `mutationFn` of the panel. -/
def mutationFn (title : Bytes) : Option File → Prog panelCalls (Except Bytes Json)
  | none => .ret (.error (ascii "Choose a file first"))
  | some file =>
    .call (.requestUploadUrl ⟨file.name, file.type⟩) fun (signed : Except ApiError UploadUrlResponse) =>
    match signed with
    | .error e => .ret (.error e.message)
    | .ok upload =>
      .call (.put upload.uploadUrl file) fun (put : PutOutcome) =>
      match uploadFileToStorage put with
      | .error message => .ret (.error message)
      | .ok () =>
        .call (.createFileResource ⟨file.titled title, upload.publicUrl⟩) fun (saved : Except ApiError Json) =>
        .ret (saved.mapError ApiError.message)

def SignsFor (stores : Bytes → Option (Bytes × Bytes)) (calls : History) : Prop :=
  ∀ client bucket key expires url,
    ⟨.presign client .put bucket key expires, Except.ok url⟩ ∈ calls → stores url = some (bucket, key)

section Answers

variable (P : Platform) (faults : Faults) (order : RowOrder) (u : ℤ) (stores : Bytes → Option (Bytes × Bytes))

/-- One call of the panel for user `u`. A request may get lost, and an answer too. -/
def answers : Env panelCalls Site
  | .requestUploadUrl payload => fun s (signed : Except ApiError UploadUrlResponse) s' =>
    ((∃ e, signed = .error e) ∧ s' = s) ∨ ∃ calls answer,
      Site.Step P faults order s (.turn (.served ((ApiCall.requestUploadUrl payload).intent u) calls answer)) s' ∧
      SignsFor stores calls ∧ ∀ upload, signed = .ok upload → answer.error? = none ∧
        answer.get? (ascii "upload_url") = some (.str upload.uploadUrl) ∧
        answer.get? (ascii "public_url") = some (.str upload.publicUrl)
  | .put url _ => fun s (put : PutOutcome) s' =>
    (put ≠ .stored ∧ s' = s) ∨ ∃ x, stores url = some x ∧ Site.Step P faults order s (.put x) s'
  | .createFileResource values => fun s (saved : Except ApiError Json) s' =>
    ((∃ e, saved = .error e) ∧ s' = s) ∨ ∃ calls answer,
      Site.Step P faults order s (.turn (.served ((ApiCall.createFileResource values).intent u) calls answer)) s' ∧
      ∀ j, saved = .ok j → answer.error? = none ∧ j = answer

/-- The panel at work among the others. -/
def Uploads (s : Site) (title : Bytes) (file : Option File) (s' : Site) (result : Except Bytes Json) : Prop :=
  ∃ events, Prog.Exec (Prog.Amid (Site.Step P faults order) (answers P faults order u stores)) s
    (mutationFn title file) events s' result

/-- The run stores `x`, and behind it makes the row `r`. -/
def Deposits (s s' : Site) (x : Bytes × Bytes) (r : Row) : Prop :=
  ∃ s₁ s₂ t s₃, Reaches (Site.Step P faults order) s s₁ ∧ x ∈ s₁.granted ∧
    Reaches (Site.Step P faults order) (s₁.upload x) s₂ ∧ Site.Step P faults order s₂ (.turn t) s₃ ∧
    r ∉ s₂.world.resources.rows ∧ r ∈ s₃.world.resources.rows ∧ Reaches (Site.Step P faults order) s₃ s'

end Answers

section Panel

variable {P : Platform} {faults : Faults} {order : RowOrder} {u : ℤ} {stores : Bytes → Option (Bytes × Bytes)}
  {s s' : Site}

/-- What the panel saves. -/
def savedFile (P : Platform) (u millis : ℤ) (title : Bytes) (file : File) : ResourceInfo where
  id := 0
  userId := u
  title := file.titled title
  content := P.publicUrl (uploadKey u millis file.name)
  isFile := true

theorem requestUploadUrl_answered {payload : UploadUrlRequest} {upload : UploadUrlResponse}
    (h : answers P faults order u stores (.requestUploadUrl payload) s (Except.ok upload) s') :
    (∃ m, Site.Step P faults order s m s') ∧ ∃ millis,
      stores upload.uploadUrl = some (P.bucket, uploadKey u millis payload.filename) ∧
      upload.publicUrl = P.publicUrl (uploadKey u millis payload.filename) := by
  obtain ⟨⟨e, he⟩, -⟩ | ⟨calls, answer, hstep, hsigns, hread⟩ := h
  · cases he
  · obtain ⟨hok, hurl, hpublic⟩ := hread upload rfl
    refine ⟨⟨_, hstep⟩, ?_⟩
    cases hstep with
    | turn hturn =>
      cases hturn with
      | served hexec =>
        have hupload : Prog.Exec (World.does faults order) s.world
          (StorageService.createUploadUrl P u payload.filename payload.contentType) calls _ answer := hexec
        obtain ⟨client, key, expires, url, hsigned, hurl', hkey⟩ := createUploadUrl_signed hupload hok
        obtain ⟨millis, -, -, hpublic', hkey', -⟩ := createUploadUrl_exec hupload hok
        obtain rfl : upload.uploadUrl = url := by
          rw [hurl'] at hurl
          cases hurl
          rfl
        obtain rfl : key = uploadKey u millis payload.filename := by
          rw [hkey'] at hkey
          cases hkey
          rfl
        refine ⟨millis, hsigns _ _ _ _ _ hsigned, ?_⟩
        rw [hpublic'] at hpublic
        exact (Json.str.inj (Option.some.inj hpublic)).symm

theorem put_answered {url : Bytes} {file : File} {x : Bytes × Bytes} (hstores : stores url = some x)
    (h : answers P faults order u stores (.put url file) s PutOutcome.stored s') :
    x ∈ s.granted ∧ s' = s.upload x := by
  obtain ⟨hne, -⟩ | ⟨x', hx', hstep⟩ := h
  · exact absurd rfl hne
  · rw [hstores] at hx'
    cases hx'
    cases hstep with
    | put hgranted => exact ⟨hgranted, rfl⟩

theorem createFileResource_answered {values : ResourceFormValues} {saved : Json}
    (h : answers P faults order u stores (.createFileResource values) s (Except.ok saved) s') :
    ∃ t id, Site.Step P faults order s (.turn t) s' ∧
      ResourceInfo.row ⟨0, u, values.title, values.content, true⟩ id ∉ s.world.resources.rows ∧
      ResourceInfo.row ⟨0, u, values.title, values.content, true⟩ id ∈ s'.world.resources.rows := by
  obtain ⟨⟨e, he⟩, -⟩ | ⟨calls, answer, hstep, hread⟩ := h
  · cases he
  · obtain ⟨hok, -⟩ := hread saved rfl
    have hturn := hstep
    cases hstep with
    | turn hserved =>
      cases hserved with
      | served hexec =>
        obtain ⟨id, hnew, hmem⟩ := createResource_inserts hexec hok
        exact ⟨_, id, hturn, hnew, hmem⟩

/-- Where nothing fails and nothing gets lost, an upload is reported. -/
theorem uploads_of_answers {title : Bytes} {file : File} {upload : UploadUrlResponse} {saved : Json}
    {s₁ s₂ s₃ : Site}
    (hsigned : answers P faults order u stores (.requestUploadUrl ⟨file.name, file.type⟩) s (Except.ok upload) s₁)
    (hput : answers P faults order u stores (.put upload.uploadUrl file) s₁ PutOutcome.stored s₂)
    (hsaved : answers P faults order u stores (.createFileResource ⟨file.titled title, upload.publicUrl⟩) s₂
      (Except.ok saved) s₃) :
    Uploads P faults order u stores s title (some file) s₃ (.ok saved) :=
  ⟨_, .call (Prog.amid_of hsigned) (.call (Prog.amid_of hput) (.call (Prog.amid_of hsaved) (.ret _ _)))⟩

theorem reported_calls {R : Env panelCalls Site} {title : Bytes} {picked : Option File}
    {events : List (Event panelCalls)} {saved : Json}
    (hexec : Prog.Exec R s (mutationFn title picked) events s' (.ok saved)) :
    ∃ file upload s₁ s₂, picked = some file ∧
      R (.requestUploadUrl ⟨file.name, file.type⟩) s (Except.ok upload) s₁ ∧
      R (.put upload.uploadUrl file) s₁ PutOutcome.stored s₂ ∧
      R (.createFileResource ⟨file.titled title, upload.publicUrl⟩) s₂ (Except.ok saved) s' := by
  cases picked with
  | none => cases (Prog.exec_ret_iff.mp hexec).2.2
  | some file =>
    obtain ⟨signed, s₁, rest₁, hsigned, -, hexec⟩ := Prog.exec_call_iff.mp hexec
    cases signed with
    | error => cases (Prog.exec_ret_iff.mp hexec).2.2
    | ok upload =>
      obtain ⟨put, s₂, rest₂, hput, -, hexec⟩ := Prog.exec_call_iff.mp hexec
      cases put with
      | refused | unreachable | thrown => cases (Prog.exec_ret_iff.mp hexec).2.2
      | stored =>
        obtain ⟨made, s₃, rest₃, hmade, -, hexec⟩ := Prog.exec_call_iff.mp hexec
        obtain ⟨-, rfl, hsaved⟩ := Prog.exec_ret_iff.mp hexec
        cases made with
        | error => cases hsaved
        | ok =>
          cases hsaved
          exact ⟨file, upload, s₁, s₂, rfl, hsigned, hput, hmade⟩

/-- **A reported upload is kept.** However other calls, uploads and expiries lie between the calls of
the panel, an upload that it reports as done has stored an object under a key of the user, and
behind that made a row of the user that leads to it. -/
theorem upload_kept (hgetenv : P.CStrings) {title : Bytes} {picked : Option File} {saved : Json}
    (hupload : Uploads P faults order u stores s title picked s' (.ok saved)) :
    ∃ file millis id, picked = some file ∧
      ((savedFile P u millis title file).row id).Names P (P.bucket, uploadKey u millis file.name) ∧
      Deposits P faults order s s' (P.bucket, uploadKey u millis file.name)
        ((savedFile P u millis title file).row id) := by
  obtain ⟨events, hexec⟩ := hupload
  obtain ⟨file, upload, s₁, s₂, rfl, ⟨t₁, t₁', hbefore₁, hsigned, hbehind₁⟩, ⟨t₂, t₂', hbefore₂, hput, hbehind₂⟩,
    ⟨t₃, t₃', hbefore₃, hsaved, hbehind₃⟩⟩ := reported_calls hexec
  obtain ⟨⟨m, hstep⟩, millis, hstores, hpublic⟩ := requestUploadUrl_answered hsigned
  obtain ⟨hgranted, rfl⟩ := put_answered hstores hput
  obtain ⟨t, id, hturn, hnew, hmem⟩ := createFileResource_answered hsaved
  rw [hpublic] at hnew hmem
  have hasked := ((hbefore₁.snoc hstep trivial).trans hbehind₁).trans hbefore₂
  exact ⟨file, millis, id, rfl, ResourceInfo.row_names hgetenv rfl rfl id, t₂, t₃, t, t₃', hasked, hgranted,
    hbehind₂.trans hbefore₃, hturn, hnew, hmem, hbehind₃⟩

end Panel

/-- A file to upload. -/
def picked : File where
  name := ascii "a.txt"
  type := ascii "text/plain"

theorem exists_picked : ∃ stores s' saved, Uploads bare .never ⟨id, fun _ => .refl _⟩ 2 stores
    (.start (.empty User User.id) ∅) [] (some picked) s' (.ok saved) := by
  have haccepted : uploadRefusal bare (ascii "a.txt") (ascii "text/plain") = none := by decide +kernel
  have hminio : ¬ ascii "amazonaws.com" <:+: bare.publicEndpoint := by decide +kernel
  obtain ⟨calls, answer, hupload, hok, -, -, -⟩ :=
    exists_upload bare .never ⟨id, fun _ => .refl _⟩ (.initial (.empty User User.id) ∅) 2 5 haccepted hminio
  have haction : Prog.Exec (World.does .never ⟨id, fun _ => .refl _⟩) _
    (StorageService.createUploadUrl bare 2 (ascii "a.txt") (ascii "text/plain")) calls _ answer := hupload
  obtain ⟨_, _, _, url, -, hurl, -⟩ := createUploadUrl_signed haction hok
  obtain ⟨millis, -, huses, hpublic, hkey, -⟩ := createUploadUrl_exec haction hok
  have hsigns : SignsFor (fun _ => some (bare.bucket, uploadKey 2 millis (ascii "a.txt"))) calls := by
    intro client bucket key expires url hmem
    have huse : ObjectUse.sign .put bucket key ∈ objectUses calls := List.mem_filterMap.mpr ⟨_, hmem, rfl⟩
    rw [huses, List.mem_singleton] at huse
    cases huse
    rfl
  have hgranted : (bare.bucket, uploadKey 2 millis (ascii "a.txt")) ∈
      (∅ : Set (Bytes × Bytes)) ∪ Turn.granted (.served (.createUploadUrl 2 (ascii "a.txt")
        (ascii "text/plain")) calls answer) := Or.inr (granted_of_upload haction hok hkey)
  have hnext : (World.initial (.empty User User.id) ∅).resources.nextId ≤ 1 := by decide
  obtain ⟨calls', w, hcreate, -, -⟩ := exec_createResource .never ⟨id, fun _ => .refl _⟩
    { World.initial (.empty User User.id) ∅ with
      objects := ∅ ∪ {(bare.bucket, uploadKey 2 millis (ascii "a.txt"))} }
    (savedFile bare 2 millis [] picked) 1 hnext (by decide) (by decide) bare
  have hanswered : answers bare .never ⟨id, fun _ => .refl _⟩ 2
      (fun _ => some (bare.bucket, uploadKey 2 millis (ascii "a.txt")))
      (.requestUploadUrl ⟨picked.name, picked.type⟩) (.start (.empty User User.id) ∅)
      (Except.ok ⟨url, bare.publicUrl (uploadKey 2 millis (ascii "a.txt"))⟩) _ :=
    Or.inr ⟨calls, answer, .turn (.served hupload), hsigns, by rintro upload ⟨⟩; exact ⟨hok, hurl, hpublic⟩⟩
  refine ⟨_, _, .status (ascii "created"), uploads_of_answers hanswered (Or.inr ⟨_, rfl, .put hgranted⟩)
    (Or.inr ⟨calls', _, .turn (.served hcreate), ?_⟩)⟩
  rintro j ⟨⟩
  exact ⟨rfl, rfl⟩

theorem picked_kept : ∃ s' millis i, Deposits bare .never ⟨id, fun _ => .refl _⟩
    (.start (.empty User User.id) ∅) s' (bare.bucket, uploadKey 2 millis picked.name)
    ((savedFile bare 2 millis [] picked).row i) := by
  have hgetenv : bare.CStrings := fun _ _ h => (nomatch h)
  obtain ⟨stores, s', saved, hupload⟩ := exists_picked
  obtain ⟨file, millis, i, hfile, -, hdeposits⟩ := upload_kept hgetenv hupload
  cases hfile
  exact ⟨s', millis, i, hdeposits⟩

end Frontend
end ResourceServer
