import ResourceServer.Service.History

/-!
# What a service call does

`Guard` says what each action of a call may be, given the events before it; `Promise`
says what a finished call has done and answered. `serve_traces` proves both of every
service function, once, for any environment.
-/

namespace ResourceServer
namespace Service

open CString

variable (P : Platform) (q : ServiceQuery)

def NamesSelectedFile (past : History) (key : Bytes) : Prop :=
  ∃ u i content, (q = .getFileDownloadUrl u i ∨ q = .deleteResource u i) ∧
    SelectedFile past u content ∧ key = P.objectKey content ∧ key ≠ []

def Guard : Action → History → Prop
  | .redisGet key, _ => ∃ k : CacheKey, key = k.text ∧ q = k.query
  | .redisSetex key _ value, past =>
    ∃ k : CacheKey, key = k.text ∧ q = k.query ∧
      (Reliable past → ∃ j, Selected past k j ∧ P.json.dump j = some value)
  | .redisDel key, _ => ∃ k : CacheKey, key = k.text ∧ q.actingUser = some k.owner
  | .insertResource u _ content isFile, _ =>
    ∃ info, q = .createResource info ∧ u = info.userId ∧ content = cstr info.content ∧
      isFile = info.isFile
  | .selectResources u, _ => q.actingUser = some u
  | .selectResource u _, _ => q.actingUser = some u
  | .updateResource _ content u i, _ =>
    ∃ info, q = .updateResource info ∧ u = info.userId ∧ i = info.id ∧ content = cstr info.content
  | .deleteResource i u, _ => q = .deleteResource u i
  | .presign _ .put _ key _, _ =>
    ∃ u filename contentType, q = .createUploadUrl u filename contentType ∧ uploadPrefix u <+: key
  | .presign _ .get _ key _, past => NamesSelectedFile P q past key
  | .removeObject _ _ key, past => NamesSelectedFile P q past key
  -- a message is read only behind a write of the call's own
  | .readMsg d, past => (lastWritten d past).isSome = true
  | .insertUser .., _ => ∃ info, q = .createUser info
  | .selectUser _, _ => ∃ info, q = .login info
  | .createJwt _, _ => ∃ info, q = .login info
  | .epochMillis, _ => ∃ u filename contentType, q = .createUploadUrl u filename contentType
  | .clearMsg _, _ | .assignMsg .., _ => True

/-- What a DAO notes of a statement that failed or met no row. -/
inductive Noted : Event actions → Bytes → Prop where
  | insertResource {u : ℤ} {title content : Bytes} {isFile : Bool} (f : DbFailure) :
      Noted ⟨.insertResource u title content isFile, Except.error f⟩
        (Dao.resource.failureText (ascii "creating a resource") f)
  | selectResources {u : ℤ} (f : DbFailure) :
      Noted ⟨.selectResources u, Except.error f⟩
        (Dao.resource.failureText (ascii "loading resources") f)
  | selectResource {u i : ℤ} (f : DbFailure) :
      Noted ⟨.selectResource u i, Except.error f⟩
        (Dao.resource.failureText (ascii "loading a resource") f)
  | noResource {u i : ℤ} :
      Noted ⟨.selectResource u i, Except.ok none⟩ (ascii "Resource not found.")
  | updateResource {title content : Bytes} {u i : ℤ} (f : DbFailure) :
      Noted ⟨.updateResource title content u i, Except.error f⟩
        (Dao.resource.failureText (ascii "updating a resource") f)
  | noneUpdated {title content : Bytes} {u i : ℤ} :
      Noted ⟨.updateResource title content u i, Except.ok 0⟩ (ascii "No change proceeded.")
  | deleteResource {i u : ℤ} (f : DbFailure) :
      Noted ⟨.deleteResource i u, Except.error f⟩
        (Dao.resource.failureText (ascii "deleting a resource") f)
  | noneDeleted {i u : ℤ} :
      Noted ⟨.deleteResource i u, Except.ok 0⟩ (ascii "Resource not found.")
  | insertUser {name email password : Bytes} (f : DbFailure) :
      Noted ⟨.insertUser name email password, Except.error f⟩
        (Dao.user.failureText (ascii "creating a user") f)
  | selectUser {email : Bytes} (f : DbFailure) :
      Noted ⟨.selectUser email, Except.error f⟩
        (Dao.user.failureText (ascii "loading a user") f)
  | noUser {email : Bytes} : Noted ⟨.selectUser email, Except.ok none⟩ (ascii "User not found")

/-- The endpoint is that of AWS, and no credentials are set for it. -/
def MissesCredentials (endpoint : Bytes) : Prop :=
  ascii "amazonaws.com" <:+: endpoint ∧
    (P.getStorageEnv "S3_ACCESS_KEY" "MINIO_ACCESS_KEY" [] = [] ∨
      P.getStorageEnv "S3_SECRET_KEY" "MINIO_SECRET_KEY" [] = [])

/-- An event that ends a call with an error, and the text of the error. -/
inductive Reports : Event actions → Bytes → Prop where
  | noted {e : Event actions} {text : Bytes} (h : Noted e text) : Reports e text
  | wrongPassword {info : UserInfo} {user : User} (hq : q = .login info)
      (h : user.password ≠ P.sha256 info.password) :
      Reports ⟨.selectUser (cstr info.email), Except.ok (some user)⟩ (ascii "wrong password")
  | tokenThrown {u : ℤ} {t : Thrown} :
      Reports ⟨.createJwt u, Except.error t⟩ (ascii "user service unavailable")
  | noToken {u : ℤ} : Reports ⟨.createJwt u, Except.ok []⟩ (ascii "token generation failed")
  | listThrown {u : ℤ} {rs : List Resource} (h : P.json.dump (Resource.listJson rs) = none) :
      Reports ⟨.selectResources u, Except.ok rs⟩ (ascii "resource service unavailable")
  | resourceThrown {u i : ℤ} {r : Resource} (hq : q = .getResource u i)
      (h : P.json.dump r.json = none) :
      Reports ⟨.selectResource u i, Except.ok (some r)⟩ (ascii "resource service unavailable")
  | notFile {u i : ℤ} {r : Resource} (hq : q = .getFileDownloadUrl u i) (h : r.isFile = false) :
      Reports ⟨.selectResource u i, Except.ok (some r)⟩ (ascii "resource is not file")
  | noKey {u i : ℤ} {r : Resource} (hq : q = .getFileDownloadUrl u i ∨ q = .deleteResource u i)
      (hfile : r.isFile = true) (h : P.objectKey r.content = []) :
      Reports ⟨.selectResource u i, Except.ok (some r)⟩ (ascii "invalid file url")
  | noCredentials {u i : ℤ} {r : Resource} (hq : q = .getFileDownloadUrl u i)
      (hfile : r.isFile = true) (hkey : P.objectKey r.content ≠ [])
      (h : MissesCredentials P P.publicEndpoint) :
      Reports ⟨.selectResource u i, Except.ok (some r)⟩ (ascii "missing S3 credentials")
  | signThrown {client : SdkClient} {method : ObjectMethod} {bucket key : Bytes} {expires : ℤ}
      {t : Thrown} :
      Reports ⟨.presign client method bucket key expires, Except.error (SdkFailure.thrown t)⟩
        (ascii "storage service unavailable")
  | signRejected {endpoint : Bytes} {method : ObjectMethod} {bucket key : Bytes} {expires : ℤ}
      (text : Bytes) :
      Reports ⟨.presign (P.minioClient endpoint) method bucket key expires,
        Except.error (SdkFailure.rejected text)⟩ text
  | awsRejected {region access secret : Bytes} {method : ObjectMethod} {bucket key : Bytes}
      {expires : ℤ} {result : Except SdkFailure Bytes}
      (h : result = .ok [] ∨ ∃ m, result = .error (.rejected m)) :
      Reports ⟨.presign (.aws region access secret) method bucket key expires, result⟩
        (ascii "failed to create AWS S3 presigned URL")
  | removal {client : SdkClient} {bucket key : Bytes} (f : SdkFailure) :
      Reports ⟨.removeObject client bucket key, Except.error f⟩ (StorageService.removalText f)

/-- The error text is that of an event of the call itself. -/
def OwnText (past : History) (text : Bytes) : Prop := ∃ e ∈ past, Reports P q e text

/-- What a list request makes of its `SELECT`. -/
structure Listed (u : ℤ) (past : History) (answer : Json) : Prop where
  source : (∃ result, ⟨.selectResources u, result⟩ ∈ past) ∨ FromCache P.json past (.list u) answer
  stored : ∀ key ttl text ok, (⟨.redisSetex key ttl text, ok⟩ : Event actions) ∈ past →
    key = (CacheKey.list u).text ∧ ∃ rs, ⟨.selectResources u, Except.ok rs⟩ ∈ past ∧
      P.json.dump (Resource.listJson rs) = some text
  loaded : ∀ rs text, ⟨.selectResources u, Except.ok rs⟩ ∈ past →
    P.json.dump (Resource.listJson rs) = some text →
      answer = Resource.listJson rs ∧
        ∃ ok : Bool, ⟨.redisSetex (CacheKey.list u).text (CacheKey.list u).ttl text, ok⟩ ∈ past
  failed : ∀ f, ⟨.selectResources u, Except.error f⟩ ∈ past →
    answer = .error (Dao.resource.failureText (ascii "loading resources") f) ∧
      ∀ key ttl text ok, (⟨.redisSetex key ttl text, ok⟩ : Event actions) ∉ past

structure Promise (answer : Json) (past : History) : Prop where
  settled : ∀ k, ¬ Owes past k
  shown : Reliable past → ∀ k : CacheKey, q = k.query → answer.error? = none →
    FromCache P.json past k answer ∨ Selected past k answer
  explained : OwnReads past → (∀ u filename contentType, q ≠ .createUploadUrl u filename contentType) →
    ∀ text, answer.error? = some text →
      (∃ k, FromCache P.json past k answer) ∨ ∃ m, text = .str m ∧ OwnText P q past m
  listed : OwnReads past → ∀ u, q = .getResources u → Listed P u past answer

def cleared (d : Dao) : Event actions := ⟨.clearMsg d, ()⟩

def assigned (d : Dao) (text : Bytes) : Event actions := ⟨.assignMsg d text, ()⟩

theorem not_owes_statement {past : History} {d : Dao} {e : Event actions} (hpast : ∀ k, ¬ Owes past k)
    (he : ∀ k, ¬ Changes k e) : ∀ k, ¬ Owes (past ++ [cleared d] ++ [e]) k :=
  not_owes_snoc (not_owes_snoc hpast fun _ => id) he

/-- Nothing is owed behind a row that was read. -/
theorem not_owes_selected {u i : ℤ} {r : Resource} : ∀ k, ¬ Owes ([] ++ [cleared .resource] ++
    [⟨.selectResource u i, Except.ok (some r)⟩]) k :=
  not_owes_statement not_owes_nil fun _ => id

section Dao

variable {P q} {past : History} {α : Type}

theorem failWith_traces {Q : α → History → Prop} {d : Dao} {text : Bytes} {result : α}
    (h : Q result (past ++ [assigned d text])) :
    (failWith d text result).Traces (Guard P q) Q past :=
  ⟨trivial, fun _ => h⟩

theorem createResource_dao {Q : Bool → History → Prop} {info : ResourceInfo}
    (hq : q = .createResource info)
    (hok : Q true (past ++ [cleared .resource] ++
      [⟨.insertResource info.userId (cstr info.title) (cstr info.content) info.isFile,
        Except.ok ()⟩]))
    (hfail : ∀ f text,
      Noted ⟨.insertResource info.userId (cstr info.title) (cstr info.content) info.isFile,
        Except.error f⟩ text →
      Q false (past ++ [cleared .resource] ++
        [⟨.insertResource info.userId (cstr info.title) (cstr info.content) info.isFile,
          Except.error f⟩] ++ [assigned .resource text])) :
    (ResourceDAO.createResource info.userId info.title info.content info.isFile).Traces
      (Guard P q) Q past := by
  refine ⟨trivial, fun _ => ⟨⟨info, hq, rfl, rfl, rfl⟩, fun result => ?_⟩⟩
  cases result with
  | error f => exact failWith_traces (hfail f _ (.insertResource f))
  | ok _ => exact hok

theorem readMsg_traces {Q : Bytes → History → Prop} {d : Dao}
    (hwritten : (lastWritten d past).isSome = true)
    (h : ∀ m, Q m (past ++ [⟨.readMsg d, m⟩])) : (readMsg d).Traces (Guard P q) Q past :=
  ⟨hwritten, h⟩

theorem cacheGet_traces {Q : Option Bytes → History → Prop} {k : CacheKey} (hq : q = k.query)
    (h : ∀ cached, Q cached (past ++ [⟨.redisGet k.text, cached⟩])) :
    (ResourceCache.get k).Traces (Guard P q) Q past := ⟨⟨k, rfl, hq⟩, h⟩

theorem cacheSet_traces {Q : Bool → History → Prop} {k : CacheKey} {value : Bytes} (hq : q = k.query)
    (hfill : Reliable past → ∃ j, Selected past k j ∧ P.json.dump j = some value)
    (h : ∀ ok, Q ok (past ++ [⟨.redisSetex k.text k.ttl value, ok⟩])) :
    (ResourceCache.set k value).Traces (Guard P q) Q past := ⟨⟨k, rfl, hq, hfill⟩, h⟩

theorem invalidate_traces {Q : Bool → History → Prop} {k : CacheKey}
    (hq : q.actingUser = some k.owner)
    (h : ∀ ok, Q ok (past ++ [⟨.redisDel k.text, ok⟩])) :
    (ResourceCache.invalidate k).Traces (Guard P q) Q past := ⟨⟨k, rfl, hq⟩, h⟩

theorem getResources_dao {Q : List Resource → History → Prop} {u : ℤ}
    (hq : q.actingUser = some u)
    (hok : ∀ rs, Q rs (past ++ [cleared .resource] ++ [⟨.selectResources u, Except.ok rs⟩]))
    (hfail : ∀ f, Q [] (past ++ [cleared .resource] ++ [⟨.selectResources u, Except.error f⟩] ++
      [assigned .resource (Dao.resource.failureText (ascii "loading resources") f)])) :
    (ResourceDAO.getResources u).Traces (Guard P q) Q past := by
  refine ⟨trivial, fun _ => ⟨hq, fun result => ?_⟩⟩
  cases result with
  | error f => exact failWith_traces (hfail f)
  | ok rs => exact hok rs

theorem getResource_dao {Q : Option Resource → History → Prop} {u i : ℤ}
    (hq : q.actingUser = some u)
    (hfound : ∀ r, Q (some r)
      (past ++ [cleared .resource] ++ [⟨.selectResource u i, Except.ok (some r)⟩]))
    (hfail : ∀ result text, Noted ⟨.selectResource u i, result⟩ text → Q none
      (past ++ [cleared .resource] ++ [⟨.selectResource u i, result⟩] ++ [assigned .resource text])) :
    (ResourceDAO.getResource u i).Traces (Guard P q) Q past := by
  refine ⟨trivial, fun _ => ⟨hq, fun result => ?_⟩⟩
  rcases result with f | _ | r
  · exact failWith_traces (hfail _ _ (.selectResource f))
  · exact failWith_traces (hfail _ _ .noResource)
  · exact hfound r

theorem updateResource_dao {Q : Bool → History → Prop} {info : ResourceInfo}
    (hq : q = .updateResource info)
    (hok : ∀ n, Q true (past ++ [cleared .resource] ++
      [⟨.updateResource (cstr info.title) (cstr info.content) info.userId info.id,
        Except.ok (n + 1)⟩]))
    (hfail : ∀ result text, (∀ n, result ≠ Except.ok (n + 1)) →
      Noted ⟨.updateResource (cstr info.title) (cstr info.content) info.userId info.id, result⟩ text →
      Q false (past ++ [cleared .resource] ++
        [⟨.updateResource (cstr info.title) (cstr info.content) info.userId info.id, result⟩] ++
        [assigned .resource text])) :
    (ResourceDAO.updateResource info.id info.userId info.title info.content).Traces
      (Guard P q) Q past := by
  refine ⟨trivial, fun _ => ⟨⟨info, hq, rfl, rfl, rfl⟩, fun result => ?_⟩⟩
  rcases result with f | _ | n
  · exact failWith_traces (hfail _ _ (by simp) (.updateResource f))
  · exact failWith_traces (hfail _ _ (by simp) .noneUpdated)
  · exact hok n

theorem deleteResource_dao {Q : Bool → History → Prop} {u i : ℤ} (hq : q = .deleteResource u i)
    (hok : ∀ n, Q true
      (past ++ [cleared .resource] ++ [⟨.deleteResource i u, Except.ok (n + 1)⟩]))
    (hfail : ∀ result text, (∀ n, result ≠ Except.ok (n + 1)) →
      Noted ⟨.deleteResource i u, result⟩ text → Q false
        (past ++ [cleared .resource] ++ [⟨.deleteResource i u, result⟩] ++ [assigned .resource text])) :
    (ResourceDAO.deleteResource u i).Traces (Guard P q) Q past := by
  refine ⟨trivial, fun _ => ⟨hq, fun result => ?_⟩⟩
  rcases result with f | _ | n
  · exact failWith_traces (hfail _ _ (by simp) (.deleteResource f))
  · exact failWith_traces (hfail _ _ (by simp) .noneDeleted)
  · exact hok n

theorem createUser_dao {Q : Bool → History → Prop} {name email password : Bytes}
    (hq : ∃ info, q = .createUser info)
    (hok : Q true (past ++ [cleared .user] ++
      [⟨.insertUser (cstr name) (cstr email) (cstr password), Except.ok ()⟩]))
    (hfail : ∀ f text,
      Noted ⟨.insertUser (cstr name) (cstr email) (cstr password), Except.error f⟩ text →
      Q false (past ++ [cleared .user] ++
        [⟨.insertUser (cstr name) (cstr email) (cstr password), Except.error f⟩] ++
        [assigned .user text])) :
    (UserDAO.createUser name email password).Traces (Guard P q) Q past := by
  refine ⟨trivial, fun _ => ⟨hq, fun result => ?_⟩⟩
  cases result with
  | error f => exact failWith_traces (hfail f _ (.insertUser f))
  | ok _ => exact hok

theorem getUserByEmail_dao {Q : Option User → History → Prop} {email : Bytes}
    (hq : ∃ info, q = .login info)
    (hfound : ∀ user, Q (some user)
      (past ++ [cleared .user] ++ [⟨.selectUser (cstr email), Except.ok (some user)⟩]))
    (hfail : ∀ result text, Noted ⟨.selectUser (cstr email), result⟩ text → Q none
      (past ++ [cleared .user] ++ [⟨.selectUser (cstr email), result⟩] ++ [assigned .user text])) :
    (UserDAO.getUserByEmail email).Traces (Guard P q) Q past := by
  refine ⟨trivial, fun _ => ⟨hq, fun result => ?_⟩⟩
  rcases result with f | _ | user
  · exact failWith_traces (hfail _ _ (.selectUser f))
  · exact failWith_traces (hfail _ _ .noUser)
  · exact hfound user

end Dao

/-- The storage actions, which touch no message, row or cache entry. -/
def Action.isStorage : Action → Bool
  | .presign .. | .removeObject .. | .epochMillis => true
  | _ => false

section Storage

variable {P q} {past tail : History}

theorem storage_induction {motive : History → Prop} (htail : ∀ e ∈ tail, e.op.isStorage = true)
    (hpast : motive past)
    (hsnoc : ∀ l e, e.op.isStorage = true → motive l → motive (l ++ [e])) :
    motive (past ++ tail) := by
  induction tail using List.reverseRecOn with
  | nil => rwa [List.append_nil]
  | append_singleton l e ih =>
    rw [← List.append_assoc]
    exact hsnoc _ e (htail e (by simp)) (ih fun d hd => htail d (by simp [hd]))

theorem owes_storage (htail : ∀ e ∈ tail, e.op.isStorage = true) (k : CacheKey) :
    Owes (past ++ tail) k → Owes past k := by
  refine storage_induction (motive := fun l => Owes l k → Owes past k) htail id fun l e he ih => ?_
  rw [owes_snoc]
  rintro (h | ⟨h, -⟩)
  · obtain ⟨op, r⟩ := e
    cases op <;> first | exact h.elim | cases he
  · exact ih h

end Storage

section Promises

variable {P q} {past : History} {answer : Json}

theorem ownText_last {e : Event actions} {text : Bytes} (h : Reports P q e text) :
    OwnText P q (past ++ [e]) text := ⟨e, List.mem_append_right _ List.mem_cons_self, h⟩

theorem OwnText.append {text : Bytes} (h : OwnText P q past text) (tail : History) :
    OwnText P q (past ++ tail) text := by
  obtain ⟨e, hmem, he⟩ := h
  exact ⟨e, List.mem_append_left _ hmem, he⟩

theorem Promise.of_command (hq : ∀ k : CacheKey, q ≠ k.query) (settled : ∀ k, ¬ Owes past k)
    (explained : OwnReads past → ∀ text, answer.error? = some text →
      ∃ m, text = .str m ∧ OwnText P q past m) : Promise P q answer past where
  settled := settled
  shown _ k hk := absurd hk (hq k)
  explained hown _ text htext := Or.inr (explained hown text htext)
  listed _ u hu := absurd hu (hq (.list u))

theorem explained_of_ok {H : Prop} (hanswer : answer.error? = none) :
    H → ∀ text, answer.error? = some text → ∃ m, text = .str m ∧ OwnText P q past m := by
  intro _ text htext
  rw [hanswer] at htext
  cases htext

theorem explained_of_message {d : Dao} {m text : Bytes} (hlast : lastWritten d past = some text)
    (htext : OwnText P q past text) :
    OwnReads (past ++ [⟨.readMsg d, m⟩]) → ∀ error, (Json.error m).error? = some error →
      ∃ m', error = .str m' ∧ OwnText P q (past ++ [⟨.readMsg d, m⟩]) m' := by
  intro hown error herror
  rw [Json.error?_error] at herror
  cases herror
  obtain rfl : m = text := hown.read_eq hlast
  exact ⟨m, rfl, htext.append _⟩

/-- A failure that the call has noted is answered with its text. -/
theorem readError_traces {d : Dao} {text : Bytes} (hq : ∀ k : CacheKey, q ≠ k.query)
    (hpast : ∀ k, ¬ Owes past k) (htext : OwnText P q past text) :
    (readMsg d >>= fun m => return Json.error m).Traces (Guard P q) (Promise P q)
      (past ++ [assigned d text]) := by
  have hlast : lastWritten d (past ++ [assigned d text]) = some text := by
    rw [lastWritten_snoc]
    simp [assigned, Action.written]
  refine Prog.traces_bind.mpr (readMsg_traces (congrArg Option.isSome hlast) fun m => ?_)
  have hsettled := not_owes_snoc (e := ⟨.readMsg d, m⟩)
    (not_owes_snoc (e := assigned d text) hpast fun _ => id) fun _ => id
  exact .of_command hq hsettled (explained_of_message hlast (htext.append _))

theorem explained_of_text {H : Prop} {m : Bytes} (hm : OwnText P q past m) :
    H → ∀ text, (Json.error m).error? = some text → ∃ m', text = .str m' ∧ OwnText P q past m' := by
  intro _ text htext
  rw [Json.error?_error] at htext
  cases htext
  exact ⟨m, rfl, hm⟩

end Promises

theorem createResource_traces (info : ResourceInfo) :
    (ResourceService.createResource info).Traces (Guard P (.createResource info))
      (Promise P (.createResource info)) [] := by
  have hq : ∀ k : CacheKey, ServiceQuery.createResource info ≠ k.query := by
    rintro (_ | _) <;> nofun
  refine Prog.traces_bind.mpr (createResource_dao rfl ?_ fun f text hnoted => ?_)
  · refine ⟨⟨.list info.userId, rfl, rfl⟩, fun ok => .of_command hq ?_ (explained_of_ok rfl)⟩
    intro k
    simp only [owes_snoc, Changes, not_owes_nil, cleared]
    grind
  · exact readError_traces hq (not_owes_statement not_owes_nil fun k h => nomatch h.1)
      (ownText_last (.noted hnoted))

theorem updateResource_traces (info : ResourceInfo) :
    (ResourceService.updateResource info).Traces (Guard P (.updateResource info))
      (Promise P (.updateResource info)) [] := by
  have hq : ∀ k : CacheKey, ServiceQuery.updateResource info ≠ k.query := by
    rintro (_ | _) <;> nofun
  refine Prog.traces_bind.mpr
    (updateResource_dao rfl (fun n => ?_) fun result text hresult hnoted => ?_)
  · refine ⟨⟨.resource info.userId info.id, rfl, rfl⟩, fun _ =>
      ⟨⟨.list info.userId, rfl, rfl⟩, fun _ => .of_command hq ?_ (explained_of_ok rfl)⟩⟩
    intro k
    simp only [owes_snoc, Changes, not_owes_nil, cleared]
    grind
  · refine readError_traces hq (not_owes_statement not_owes_nil ?_) (ownText_last (.noted hnoted))
    rintro k ⟨⟨n, hn⟩, -⟩
    exact hresult n hn

theorem parseCachedJson_eq_some {lib : JsonLib} {cached : Option Bytes} {j : Json}
    (h : parseCachedJson lib cached = some j) :
    ∃ text, cached = some text ∧ lib.parse text = .ok j := by
  unfold parseCachedJson at h
  cases cached with
  | none => cases h
  | some text =>
    refine ⟨text, rfl, ?_⟩
    rw [Option.bind_some] at h
    split at h
    · cases h
      assumption
    · cases h

theorem Promise.of_cached {k : CacheKey} {cached : Option Bytes} {answer : Json}
    (hcached : parseCachedJson P.json cached = some answer) :
    Promise P k.query answer ([] ++ [⟨.redisGet k.text, cached⟩]) := by
  obtain ⟨text, rfl, hparse⟩ := parseCachedJson_eq_some hcached
  have hfrom : FromCache P.json ([] ++ [⟨.redisGet k.text, some text⟩]) k answer :=
    ⟨text, by simp, hparse⟩
  refine ⟨fun k' => ?_, fun _ k' hk _ => ?_, fun _ _ _ _ => Or.inl ⟨k, hfrom⟩, fun _ u hu => ?_⟩
  · simp only [owes_snoc, Changes, not_owes_nil]
    grind
  · obtain rfl := CacheKey.query_injective hk
    exact Or.inl hfrom
  · obtain rfl := CacheKey.query_injective (show k.query = (CacheKey.list u).query from hu)
    exact ⟨Or.inr hfrom, fun _ _ _ _ h => (nomatch List.mem_singleton.mp h),
      fun _ _ h => (nomatch List.mem_singleton.mp h), fun _ h => (nomatch List.mem_singleton.mp h)⟩

/-- A request with one `SELECT`, which stores nothing but the text of the rows it returned. -/
theorem Listed.of_select {u : ℤ} {past : History} {answer : Json}
    {r : Except DbFailure (List Resource)}
    (hselect : ∀ result, ⟨.selectResources u, result⟩ ∈ past ↔ result = r)
    (hstored : ∀ key ttl text ok, (⟨.redisSetex key ttl text, ok⟩ : Event actions) ∈ past →
      key = (CacheKey.list u).text ∧ ∃ rs, r = Except.ok rs ∧
        P.json.dump (Resource.listJson rs) = some text)
    (hloaded : ∀ rs text, r = Except.ok rs → P.json.dump (Resource.listJson rs) = some text →
      answer = Resource.listJson rs ∧
        ∃ ok : Bool, ⟨.redisSetex (CacheKey.list u).text (CacheKey.list u).ttl text, ok⟩ ∈ past)
    (hfailed : ∀ f, r = Except.error f →
      answer = .error (Dao.resource.failureText (ascii "loading resources") f)) :
    Listed P u past answer where
  source := Or.inl ⟨r, (hselect r).mpr rfl⟩
  stored key ttl text ok h := by
    obtain ⟨hkey, rs, hrs, hdump⟩ := hstored key ttl text ok h
    exact ⟨hkey, rs, (hselect _).mpr hrs.symm, hdump⟩
  loaded rs text h := hloaded rs text ((hselect _).mp h).symm
  failed f h := by
    have hf := ((hselect _).mp h).symm
    refine ⟨hfailed f hf, fun key ttl text ok hset => ?_⟩
    obtain ⟨-, rs, hrs, -⟩ := hstored key ttl text ok hset
    cases hf.symm.trans hrs

theorem listLoaded_ok {u : ℤ} {cached : Option Bytes} {rs : List Resource} :
    (ResourceService.listLoaded P u rs).Traces (Guard P (.getResources u))
      (Promise P (.getResources u)) ([] ++ [⟨.redisGet (CacheKey.list u).text, cached⟩] ++
        [cleared .resource] ++ [⟨.selectResources u, Except.ok rs⟩]) := by
  refine Prog.traces_bind.mpr (readMsg_traces rfl fun m => ?_)
  by_cases hm : m ≠ []
  · rw [if_pos hm]
    refine Prog.traces_bind.mpr (readMsg_traces rfl fun m' => ⟨fun k => ?_, fun _ _ _ h => ?_,
      fun hown => absurd (hown.of_append.read_eq rfl) hm, fun hown => ?_⟩)
    · simp only [owes_snoc, Changes, not_owes_nil, cleared]
      grind
    · simp at h
    · exact absurd (hown.of_append.read_eq rfl) hm
  · rw [if_neg hm]
    cases hdump : P.json.dump (Resource.listJson rs) with
    | none =>
      refine ⟨fun k => ?_, fun _ _ _ h => ?_, fun _ _ text htext =>
        Or.inr (explained_of_text (H := True) ((ownText_last (.listThrown hdump)).append _) trivial
          text htext),
        fun hown u' hu => ?_⟩
      · simp only [owes_snoc, Changes, not_owes_nil, cleared]
        grind
      · simp [ResourceService.unavailable] at h
      · cases hu
        refine .of_select P (r := .ok rs) (fun result => ?_) (fun key ttl text ok h => ?_)
          (fun rs' text hrs htext => ?_) nofun
        · simp only [cleared, List.mem_append, List.mem_singleton, List.not_mem_nil]
          grind
        · simp only [cleared, List.mem_append, List.mem_singleton, List.not_mem_nil] at h
          grind
        · cases hrs
          cases hdump.symm.trans htext
    | some text =>
      refine Prog.traces_bind.mpr (cacheSet_traces (k := .list u) rfl ?_ fun ok => ?_)
      · exact fun _ => ⟨_, ⟨rs, by simp, rfl⟩, hdump⟩
      · refine ⟨fun k => ?_, fun _ k hk _ => ?_, fun _ _ text htext => by simp at htext,
          fun hown u' hu => ?_⟩
        · simp only [owes_snoc, Changes, not_owes_nil, cleared]
          grind
        · obtain rfl := CacheKey.query_injective (show (CacheKey.list u).query = k.query from hk)
          exact Or.inr ⟨rs, by simp, rfl⟩
        · cases hu
          refine .of_select P (r := .ok rs) (fun result => ?_) (fun key ttl text' ok' h => ?_)
            (fun rs' text' hrs htext => ?_) nofun
          · simp only [cleared, List.mem_append, List.mem_singleton, List.not_mem_nil]
            grind
          · simp only [cleared, List.mem_append, List.mem_singleton, List.not_mem_nil] at h
            have hset : key = (CacheKey.list u).text ∧ text' = text := by grind
            exact ⟨hset.1, rs, rfl, hset.2 ▸ hdump⟩
          · cases hrs
            cases hdump.symm.trans htext
            exact ⟨rfl, ok, by simp⟩

theorem listLoaded_failed {u : ℤ} {cached : Option Bytes} {f : DbFailure} :
    (ResourceService.listLoaded P u []).Traces (Guard P (.getResources u))
      (Promise P (.getResources u)) ([] ++ [⟨.redisGet (CacheKey.list u).text, cached⟩] ++
        [cleared .resource] ++ [⟨.selectResources u, Except.error f⟩] ++
        [assigned .resource (Dao.resource.failureText (ascii "loading resources") f)]) := by
  have hnoted : OwnText P (.getResources u) ([] ++ [⟨.redisGet (CacheKey.list u).text, cached⟩] ++
      [cleared .resource] ++ [⟨.selectResources u, Except.error f⟩])
      (Dao.resource.failureText (ascii "loading resources") f) :=
    ownText_last (.noted (.selectResources f))
  refine Prog.traces_bind.mpr (readMsg_traces rfl fun m => ?_)
  by_cases hm : m ≠ []
  · rw [if_pos hm]
    refine Prog.traces_bind.mpr (readMsg_traces rfl fun m' => ⟨fun k => ?_, fun _ _ _ h => ?_,
      fun hown _ text htext => Or.inr
        (explained_of_message rfl (hnoted.append _) hown text htext),
      fun hown u' hu => ?_⟩)
    · simp only [owes_snoc, Changes, not_owes_nil, cleared, assigned]
      grind
    · simp at h
    · cases hu
      refine .of_select P (r := .error f) (fun result => ?_) (fun key ttl text ok h => ?_) nofun
        fun f' hf => ?_
      · simp only [cleared, assigned, List.mem_append, List.mem_singleton, List.not_mem_nil]
        grind
      · simp only [cleared, assigned, List.mem_append, List.mem_singleton, List.not_mem_nil] at h
        grind
      · cases hf
        exact congrArg Json.error (hown.read_eq rfl)
  · rw [if_neg hm]
    -- an empty message is another call's
    have hforeign : ∀ tail, ¬ OwnReads (([] ++ [⟨.redisGet (CacheKey.list u).text, cached⟩] ++
        [cleared .resource] ++ [⟨.selectResources u, Except.error f⟩] ++
        [assigned .resource (Dao.resource.failureText (ascii "loading resources") f)] ++
        [⟨.readMsg .resource, m⟩]) ++ tail) := by
      intro tail hown
      have hread := hown.of_append.read_eq rfl
      exact hm (hread ▸ Dao.failureText_ne_nil _ _ f)
    have hunreliable : ∀ tail, ¬ Reliable (([] ++ [⟨.redisGet (CacheKey.list u).text, cached⟩] ++
        [cleared .resource] ++ [⟨.selectResources u, Except.error f⟩] ++
        [assigned .resource (Dao.resource.failureText (ascii "loading resources") f)] ++
        [⟨.readMsg .resource, m⟩]) ++ tail) := by
      rintro tail (hown | hnone)
      · exact hforeign tail hown
      · exact hnone u f (by simp)
    cases hdump : P.json.dump (Resource.listJson []) with
    | none =>
      refine ⟨fun k => ?_, fun h => absurd h (by simpa using hunreliable []),
        fun h => absurd h (by simpa using hforeign []), fun h => absurd h (by simpa using hforeign [])⟩
      simp only [owes_snoc, Changes, not_owes_nil, cleared, assigned]
      grind
    | some text =>
      refine Prog.traces_bind.mpr (cacheSet_traces (k := .list u) rfl
        (fun h => absurd h (by simpa using hunreliable [])) fun ok => ⟨fun k => ?_,
          fun h => absurd h (hunreliable _), fun h => absurd h (hforeign _),
          fun h => absurd h (hforeign _)⟩)
      simp only [owes_snoc, Changes, not_owes_nil, cleared, assigned]
      grind

theorem getResources_traces (u : ℤ) :
    (ResourceService.getResources P u).Traces (Guard P (.getResources u))
      (Promise P (.getResources u)) [] := by
  refine Prog.traces_bind.mpr (cacheGet_traces (k := .list u) rfl fun cached => ?_)
  cases hcached : parseCachedJson P.json cached with
  | some answer => exact Promise.of_cached (k := .list u) P hcached
  | none =>
    exact Prog.traces_bind.mpr (getResources_dao rfl (fun rs => listLoaded_ok P)
      fun f => listLoaded_failed P)

theorem getResource_traces (u i : ℤ) :
    (ResourceService.getResource P u i).Traces (Guard P (.getResource u i))
      (Promise P (.getResource u i)) [] := by
  refine Prog.traces_bind.mpr (cacheGet_traces (k := .resource u i) rfl fun cached => ?_)
  cases hcached : parseCachedJson P.json cached with
  | some answer => exact Promise.of_cached (k := .resource u i) P hcached
  | none =>
    refine Prog.traces_bind.mpr (getResource_dao rfl (fun r => ?_) fun result text hnoted => ?_)
    · dsimp only
      cases hdump : P.json.dump r.json with
      | none =>
        refine ⟨fun k => ?_, fun _ _ _ h => ?_, fun _ _ text htext =>
          Or.inr (explained_of_text (H := True) (ownText_last (.resourceThrown rfl hdump)) trivial
            text htext),
          fun _ u' hu => nomatch hu⟩
        · simp only [owes_snoc, Changes, not_owes_nil, cleared]
          grind
        · simp [ResourceService.unavailable] at h
      | some text =>
        refine Prog.traces_bind.mpr (cacheSet_traces (k := .resource u i) rfl
          (fun _ => ⟨_, ⟨r, by simp, rfl⟩, hdump⟩) fun ok => ⟨fun k => ?_, fun _ k hk _ => ?_,
          fun _ _ text htext => by simp at htext, fun _ u' hu => nomatch hu⟩)
        · simp only [owes_snoc, Changes, not_owes_nil, cleared]
          grind
        · obtain rfl := CacheKey.query_injective (show (CacheKey.resource u i).query = k.query from hk)
          exact Or.inr ⟨r, by simp, rfl⟩
    · refine Prog.traces_bind.mpr (readMsg_traces rfl fun m => ⟨fun k => ?_, fun _ _ _ h => ?_,
        fun hown _ text htext => Or.inr (explained_of_message rfl
          ((ownText_last (.noted hnoted)).append _) hown text htext),
        fun _ u' hu => nomatch hu⟩)
      · simp only [owes_snoc, Changes, not_owes_nil, cleared, assigned]
        grind
      · simp at h

section Storage

variable {P q} {past : History}

theorem act_traces {a : Action} {Q : a.Ret → History → Prop} (hq : Guard P q a past)
    (h : ∀ r, Q r (past ++ [⟨a, r⟩])) : (act a).Traces (Guard P q) Q past := ⟨hq, h⟩

theorem createPresignedUrl_traces {Q : Option Json → History → Prop} {method : ObjectMethod}
    {endpoint bucket key : Bytes} {expires : ℤ}
    (hq : ∀ client, Guard P q (.presign client method bucket key expires) past)
    (h : ∀ url tail, (∀ e ∈ tail, e.op.isStorage = true) →
      (url = none → OwnText P q (past ++ tail) (ascii "storage service unavailable")) →
      (∀ j text, url = some j → j.error? = some text → ∃ m, text = .str m ∧
        (OwnText P q (past ++ tail) m ∨
          m = ascii "missing S3 credentials" ∧ MissesCredentials P endpoint)) → Q url (past ++ tail)) :
    (createPresignedUrl P method endpoint bucket key expires).Traces (Guard P q) Q past := by
  have hthrown (client : SdkClient) (t : Thrown) : Q none (past ++
      [⟨.presign client method bucket key expires, Except.error (SdkFailure.thrown t)⟩]) :=
    h none _ (by simp [Action.isStorage]) (fun _ => ownText_last .signThrown) (by simp)
  have hrejected (client : SdkClient) (result : Except SdkFailure Bytes) (m : Bytes)
      (hm : Reports P q ⟨.presign client method bucket key expires, result⟩ m) :
      Q (some (.error m)) (past ++ [⟨.presign client method bucket key expires, result⟩]) := by
    refine h _ _ (by simp [Action.isStorage]) nofun ?_
    rintro j text ⟨⟩ htext
    cases (Json.error?_error m).symm.trans htext
    exact ⟨m, rfl, Or.inl (ownText_last hm)⟩
  have hsigned (client : SdkClient) (url : Bytes) : Q (some (.obj [(ascii "url", .str url)]))
      (past ++ [⟨.presign client method bucket key expires, Except.ok url⟩]) :=
    h _ _ (by simp [Action.isStorage]) nofun fun j text hj htext => by cases hj; cases htext
  unfold createPresignedUrl
  split_ifs with haws
  · unfold createAwsSdkPresignedUrl
    dsimp only
    split_ifs with hcred
    · have := h (some (.error (ascii "missing S3 credentials"))) [] (by simp) nofun ?_
      · rwa [List.append_nil] at this
      · rintro j text ⟨⟩ htext
        cases (Json.error?_error _).symm.trans htext
        exact ⟨_, rfl, Or.inr ⟨rfl, haws, hcred⟩⟩
    · refine Prog.traces_bind.mpr (act_traces (hq _) fun result => ?_)
      rcases result with (m | t) | (_ | ⟨b, url⟩)
      · exact hrejected _ _ _ (.awsRejected (Or.inr ⟨m, rfl⟩))
      · exact hthrown _ t
      · exact hrejected _ _ _ (.awsRejected (Or.inl rfl))
      · exact hsigned _ (b :: url)
  · refine Prog.traces_bind.mpr (act_traces (hq _) fun result => ?_)
    rcases result with (m | t) | url
    · exact hrejected _ _ _ (.signRejected m)
    · exact hthrown _ t
    · exact hsigned _ url

theorem createDownloadUrl_traces {Q : Json → History → Prop} {u i : ℤ} {r : Resource}
    (hq : q = .getFileDownloadUrl u i) (hrow : ⟨.selectResource u i, Except.ok (some r)⟩ ∈ past)
    (hfile : r.isFile = true)
    (h : ∀ j tail, (∀ e ∈ tail, e.op.isStorage = true) →
      (∀ text, j.error? = some text → ∃ m, text = .str m ∧ OwnText P q (past ++ tail) m) →
        Q j (past ++ tail)) :
    (StorageService.createDownloadUrl P r.content).Traces (Guard P q) Q past := by
  unfold StorageService.createDownloadUrl
  dsimp only
  split_ifs with hkey
  · have := h (.error (ascii "invalid file url")) [] (by simp) (explained_of_text (H := True)
      (.append ⟨_, hrow, .noKey (Or.inl hq) hfile hkey⟩ []) trivial)
    rwa [List.append_nil] at this
  · refine Prog.traces_bind.mpr (createPresignedUrl_traces
      (fun client => ⟨u, i, r.content, Or.inl hq, ⟨i, r, hrow, hfile, rfl⟩, rfl, hkey⟩)
      fun url tail htail hthrown herror => ?_)
    cases url with
    | none => exact h _ _ htail (explained_of_text (H := True) (hthrown rfl) trivial)
    | some download =>
      dsimp only
      split_ifs with hfailed
      · refine h _ _ htail fun text htext => ?_
        obtain ⟨m, rfl, hown | ⟨rfl, hmissing⟩⟩ := herror _ text rfl htext
        · exact ⟨m, rfl, hown⟩
        · exact ⟨_, rfl, .append ⟨_, hrow, .noCredentials hq hfile hkey hmissing⟩ tail⟩
      · exact h _ _ htail fun text htext => by cases htext

theorem deleteFile_traces {Q : Except Bytes Unit → History → Prop} {u i : ℤ} {r : Resource}
    (hq : q = .deleteResource u i) (hrow : ⟨.selectResource u i, Except.ok (some r)⟩ ∈ past)
    (hfile : r.isFile = true)
    (h : ∀ result tail, (∀ e ∈ tail, e.op.isStorage = true) →
      (∀ m, result = .error m → OwnText P q (past ++ tail) m) → Q result (past ++ tail)) :
    (StorageService.deleteFile P r.content).Traces (Guard P q) Q past := by
  unfold StorageService.deleteFile
  dsimp only
  split_ifs with hkey
  · have := h (.error (ascii "invalid file url")) [] (by simp) ?_
    · rwa [List.append_nil] at this
    · rintro m ⟨⟩
      exact .append ⟨_, hrow, .noKey (Or.inr hq) hfile hkey⟩ []
  · refine Prog.traces_bind.mpr
      ⟨⟨u, i, r.content, Or.inr hq, ⟨i, r, hrow, hfile, rfl⟩, rfl, hkey⟩, fun result => ?_⟩
    cases result with
    | error f =>
      refine h _ _ (by simp [Action.isStorage]) ?_
      rintro m ⟨⟩
      exact ownText_last (.removal f)
    | ok _ => exact h _ _ (by simp [Action.isStorage]) nofun

end Storage

theorem getFileDownloadUrl_traces (u i : ℤ) :
    (ResourceService.getFileDownloadUrl P u i).Traces (Guard P (.getFileDownloadUrl u i))
      (Promise P (.getFileDownloadUrl u i)) [] := by
  have hq : ∀ k : CacheKey, ServiceQuery.getFileDownloadUrl u i ≠ k.query := by
    rintro (_ | _) <;> nofun
  refine Prog.traces_bind.mpr (getResource_dao rfl (fun r => ?_) fun result text hnoted => ?_)
  · dsimp only
    split_ifs with hfile
    · exact .of_command hq not_owes_selected
        (explained_of_text (ownText_last (.notFile rfl (by simpa using hfile))))
    · refine createDownloadUrl_traces rfl (by simp) (by simpa using hfile) fun j tail htail herror => ?_
      exact .of_command hq (fun k hk => not_owes_selected k (owes_storage htail k hk)) fun _ => herror
  · exact readError_traces hq (not_owes_statement not_owes_nil fun _ => id)
      (ownText_last (.noted hnoted))

theorem deleteRow_traces {u i : ℤ} {past : History} (hpast : ∀ k, ¬ Owes past k) :
    (ResourceService.deleteRow u i).Traces (Guard P (.deleteResource u i))
      (Promise P (.deleteResource u i)) past := by
  have hq : ∀ k : CacheKey, ServiceQuery.deleteResource u i ≠ k.query := by
    rintro (_ | _) <;> nofun
  refine Prog.traces_bind.mpr
    (deleteResource_dao rfl (fun n => ?_) fun result text hresult hnoted => ?_)
  · refine Prog.traces_bind.mpr (invalidate_traces (k := .resource u i) rfl fun _ =>
      Prog.traces_bind.mpr (invalidate_traces (k := .list u) rfl fun _ =>
        .of_command hq (fun k => ?_) (explained_of_ok rfl)))
    simp only [owes_snoc, Changes, hpast, cleared]
    grind
  · refine readError_traces hq (not_owes_statement hpast ?_) (ownText_last (.noted hnoted))
    rintro k ⟨⟨n, hn⟩, -⟩
    exact hresult n hn

theorem deleteResource_traces (u i : ℤ) :
    (ResourceService.deleteResource P u i).Traces (Guard P (.deleteResource u i))
      (Promise P (.deleteResource u i)) [] := by
  have hq : ∀ k : CacheKey, ServiceQuery.deleteResource u i ≠ k.query := by
    rintro (_ | _) <;> nofun
  refine Prog.traces_bind.mpr (getResource_dao rfl (fun r => ?_) fun result text hnoted => ?_)
  · dsimp only
    split_ifs with hfile
    · refine Prog.traces_bind.mpr
        (deleteFile_traces rfl (by simp) hfile fun result tail htail herror => ?_)
      have hpast : ∀ k, ¬ Owes ([] ++ [cleared .resource] ++
          [⟨.selectResource u i, Except.ok (some r)⟩] ++ tail) k :=
        fun k hk => not_owes_selected k (owes_storage htail k hk)
      cases result with
      | error m => exact .of_command hq hpast (explained_of_text (herror m rfl))
      | ok _ => exact deleteRow_traces P hpast
    · exact deleteRow_traces P not_owes_selected
  · exact readError_traces hq (not_owes_statement not_owes_nil fun _ => id)
      (ownText_last (.noted hnoted))

theorem createUser_traces (info : UserInfo) :
    (UserService.createUser P info).Traces (Guard P (.createUser info))
      (Promise P (.createUser info)) [] := by
  have hq : ∀ k : CacheKey, ServiceQuery.createUser info ≠ k.query := by
    rintro (_ | _) <;> nofun
  refine Prog.traces_bind.mpr (createUser_dao ⟨info, rfl⟩ ?_ fun f text hnoted => ?_)
  · exact .of_command hq (not_owes_statement not_owes_nil fun _ => id) (explained_of_ok rfl)
  · exact readError_traces hq (not_owes_statement not_owes_nil fun _ => id)
      (ownText_last (.noted hnoted))

theorem refuse_traces {info : UserInfo} {past : History} {reason : Bytes}
    (hpast : ∀ k, ¬ Owes past k) (hreason : OwnText P (.login info) past reason) :
    (UserService.refuse reason).Traces (Guard P (.login info)) (Promise P (.login info)) past := by
  have hq : ∀ k : CacheKey, ServiceQuery.login info ≠ k.query := by
    rintro (_ | _) <;> nofun
  exact ⟨trivial, fun _ => readError_traces hq hpast hreason⟩

theorem login_traces (info : UserInfo) :
    (UserService.login P info).Traces (Guard P (.login info)) (Promise P (.login info)) [] := by
  have hq : ∀ k : CacheKey, ServiceQuery.login info ≠ k.query := by
    rintro (_ | _) <;> nofun
  refine Prog.traces_bind.mpr
    (getUserByEmail_dao ⟨info, rfl⟩ (fun user => ?_) fun result text hnoted => ?_)
  · have not_owes_selected : ∀ k, ¬ Owes ([] ++ [cleared .user] ++
        [⟨.selectUser (cstr info.email), Except.ok (some user)⟩]) k :=
      not_owes_statement not_owes_nil fun _ => id
    dsimp only
    split_ifs with hpassword
    · exact refuse_traces P not_owes_selected (ownText_last (.wrongPassword rfl hpassword))
    · refine ⟨⟨info, rfl⟩, fun result => ?_⟩
      have hsigned : ∀ k, ¬ Owes ([] ++ [cleared .user] ++
          [⟨.selectUser (cstr info.email), Except.ok (some user)⟩] ++
          [⟨.createJwt user.id, result⟩]) k := not_owes_snoc not_owes_selected fun _ => id
      rcases result with t | (_ | ⟨b, token⟩)
      · exact ⟨trivial, fun _ => .of_command hq (not_owes_snoc hsigned fun _ => id)
          (explained_of_text ((ownText_last .tokenThrown).append _))⟩
      · exact refuse_traces P hsigned (ownText_last .noToken)
      · exact .of_command hq hsigned (explained_of_ok rfl)
  · exact readError_traces hq (not_owes_statement not_owes_nil fun _ => id)
      (ownText_last (.noted hnoted))

theorem createUploadUrl_traces (u : ℤ) (filename contentType : Bytes) :
    (StorageService.createUploadUrl P u filename contentType).Traces
      (Guard P (.createUploadUrl u filename contentType))
      (Promise P (.createUploadUrl u filename contentType)) [] := by
  have hpromise (answer : Json) (past : History) (hpast : ∀ k, ¬ Owes past k) :
      Promise P (.createUploadUrl u filename contentType) answer past :=
    ⟨hpast, fun _ k hk => absurd hk (by cases k <;> nofun),
      fun _ h => absurd rfl (h u filename contentType), fun _ _ hu => nomatch hu⟩
  unfold StorageService.createUploadUrl
  split
  · exact hpromise _ _ not_owes_nil
  · refine Prog.traces_bind.mpr (act_traces ⟨u, filename, contentType, rfl⟩ fun millis => ?_)
    have hclock : ∀ k, ¬ Owes ([] ++ [⟨.epochMillis, millis⟩]) k :=
      not_owes_snoc not_owes_nil fun _ => id
    dsimp only
    refine Prog.traces_bind.mpr (createPresignedUrl_traces (fun client => ?_)
      fun url tail htail _ _ => ?_)
    · refine ⟨u, filename, contentType, rfl, ?_⟩
      simp only [List.append_assoc]
      exact List.prefix_append _ _
    · have hpast : ∀ k, ¬ Owes ([] ++ [⟨.epochMillis, millis⟩] ++ tail) k :=
        fun k hk => hclock k (owes_storage htail k hk)
      cases url with
      | none => exact hpromise _ _ hpast
      | some upload =>
        dsimp only
        split_ifs
        · exact hpromise _ _ hpast
        · exact hpromise _ _ hpast

theorem serve_traces (P : Platform) (q : ServiceQuery) :
    (serve P q).Traces (Guard P q) (Promise P q) [] := by
  cases q with
  | logout token =>
    exact .of_command (by rintro (_ | _) <;> nofun) not_owes_nil (explained_of_ok rfl)
  | createUser info => exact createUser_traces P info
  | login info => exact login_traces P info
  | createResource info => exact createResource_traces P info
  | getResources u => exact getResources_traces P u
  | getResource u i => exact getResource_traces P u i
  | getFileDownloadUrl u i => exact getFileDownloadUrl_traces P u i
  | updateResource info => exact updateResource_traces P info
  | deleteResource u i => exact deleteResource_traces P u i
  | createUploadUrl u filename contentType => exact createUploadUrl_traces P u filename contentType

end Service
end ResourceServer
