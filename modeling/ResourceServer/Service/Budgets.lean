import ResourceServer.Service.Interleaving

/-!
# The length of a service call

Every service function performs a bounded number of actions, whatever the stores answer, and
none of them waits for another call.
-/

namespace ResourceServer
namespace Service

variable {α : Type} {n : ℕ}

theorem act_within (a : Action) : (act a).Within 1 := ⟨Nat.one_pos, fun _ => trivial⟩

theorem failWith_within (d : Dao) (text : Bytes) (result : α) : (failWith d text result).Within 1 :=
  (act_within _).bind (n := 0) fun _ => trivial

/-- A DAO function clears `msg`, runs its statement and may assign `msg`. -/
theorem statement_within {d : Dao} {a : Action} {next : a.Ret → ServiceProg α}
    (hnext : ∀ r, (next r).Within 1) : (clearMsg d >>= fun _ => act a >>= next).Within 3 :=
  (act_within _).bind (n := 2) fun _ => (act_within a).bind hnext

/-- An error is the text of `msg`. -/
theorem readError_within (d : Dao) : (readMsg d >>= fun text => return Json.error text).Within 1 :=
  (act_within _).bind (n := 0) fun _ => trivial

namespace ResourceDAO

theorem createResource_within (userId : ℤ) (title content : Bytes) (isFile : Bool) :
    (createResource userId title content isFile).Within 3 := by
  refine statement_within fun result => ?_
  cases result with
  | error f => exact failWith_within ..
  | ok _ => trivial

theorem getResources_within (userId : ℤ) : (getResources userId).Within 3 := by
  refine statement_within fun result => ?_
  cases result with
  | error f => exact failWith_within ..
  | ok rows => trivial

theorem getResource_within (userId id : ℤ) : (getResource userId id).Within 3 := by
  refine statement_within fun result => ?_
  rcases result with f | _ | r
  · exact failWith_within ..
  · exact failWith_within ..
  · trivial

theorem updateResource_within (id userId : ℤ) (title content : Bytes) :
    (updateResource id userId title content).Within 3 := by
  refine statement_within fun result => ?_
  rcases result with f | _ | count
  · exact failWith_within ..
  · exact failWith_within ..
  · trivial

theorem deleteResource_within (userId id : ℤ) : (deleteResource userId id).Within 3 := by
  refine statement_within fun result => ?_
  rcases result with f | _ | count
  · exact failWith_within ..
  · exact failWith_within ..
  · trivial

end ResourceDAO

namespace UserDAO

theorem createUser_within (name email password : Bytes) : (createUser name email password).Within 3 := by
  refine statement_within fun result => ?_
  cases result with
  | error f => exact failWith_within ..
  | ok _ => trivial

theorem getUserByEmail_within (email : Bytes) : (getUserByEmail email).Within 3 := by
  refine statement_within fun result => ?_
  rcases result with f | _ | user
  · exact failWith_within ..
  · exact failWith_within ..
  · trivial

end UserDAO

namespace StorageService

variable (P : Platform)

theorem createAwsSdkPresignedUrl_within (method : ObjectMethod) (bucket key : Bytes) (expires : ℤ) :
    (createAwsSdkPresignedUrl P method bucket key expires).Within 1 := by
  unfold createAwsSdkPresignedUrl
  dsimp only
  split_ifs
  · trivial
  · refine (act_within _).bind (n := 0) fun result => ?_
    rcases result with (_ | _) | _ | _ <;> trivial

theorem createPresignedUrl_within (method : ObjectMethod) (endpoint bucket key : Bytes) (expires : ℤ) :
    (createPresignedUrl P method endpoint bucket key expires).Within 1 := by
  unfold createPresignedUrl
  split_ifs
  · exact createAwsSdkPresignedUrl_within P method bucket key expires
  · refine (act_within _).bind (n := 0) fun result => ?_
    rcases result with (_ | _) | _ <;> trivial

theorem createUploadUrl_within (userId : ℤ) (filename contentType : Bytes) :
    (createUploadUrl P userId filename contentType).Within 2 := by
  unfold createUploadUrl
  cases uploadRefusal P filename contentType with
  | some message => trivial
  | none =>
    refine (act_within _).bind (n := 1) fun millis => (createPresignedUrl_within ..).bind (n := 0) fun upload => ?_
    cases upload with
    | none => trivial
    | some upload =>
      dsimp only
      split_ifs <;> trivial

theorem createDownloadUrl_within (publicUrl : Bytes) : (createDownloadUrl P publicUrl).Within 1 := by
  unfold createDownloadUrl
  dsimp only
  split_ifs
  · trivial
  · refine (createPresignedUrl_within ..).bind (n := 0) fun download => ?_
    cases download with
    | none => trivial
    | some download =>
      dsimp only
      split_ifs <;> trivial

theorem deleteFile_within (publicUrl : Bytes) : (deleteFile P publicUrl).Within 1 := by
  unfold deleteFile
  dsimp only
  split_ifs
  · trivial
  · refine (act_within _).bind (n := 0) fun result => ?_
    cases result <;> trivial

end StorageService

namespace ResourceService

variable (P : Platform)

/-- A statement that succeeds is followed by at most `n` actions, one that fails by one. -/
theorem succeeded_within {dao : ServiceProg Bool} {d : Dao} {rest : ServiceProg Json} (hdao : dao.Within 3)
    (hpos : 0 < n) (hrest : rest.Within n) :
    (dao >>= fun ok => if !ok then readMsg d >>= fun text => return Json.error text else rest).Within (3 + n) := by
  refine hdao.bind fun ok => ?_
  cases ok with
  | false => exact (readError_within d).mono hpos
  | true => exact hrest

/-- `get_resource` and what a row of it leads to. -/
theorem selected_within {userId id : ℤ} {next : Resource → ServiceProg Json} (hpos : 0 < n)
    (hnext : ∀ r, (next r).Within n) :
    (ResourceDAO.getResource userId id >>= fun resource =>
      match resource with
      | none => readMsg .resource >>= fun text => return Json.error text
      | some r => next r).Within (3 + n) := by
  refine (ResourceDAO.getResource_within userId id).bind fun resource => ?_
  cases resource with
  | none => exact (readError_within .resource).mono hpos
  | some r => exact hnext r

theorem createResource_within (info : ResourceInfo) : (createResource info).Within 4 :=
  succeeded_within (ResourceDAO.createResource_within ..) Nat.one_pos
    ((act_within _).bind (n := 0) fun _ => trivial)

theorem listLoaded_within (userId : ℤ) (vec : List Resource) : (listLoaded P userId vec).Within 2 := by
  refine (act_within _).bind (n := 1) fun msg => ?_
  split_ifs
  · exact readError_within .resource
  · cases P.json.dump (Resource.listJson vec) with
    | none => trivial
    | some text => exact (act_within _).bind (n := 0) fun _ => trivial

theorem getResources_within (userId : ℤ) : (getResources P userId).Within 6 := by
  refine (act_within _).bind (n := 5) fun cached => ?_
  cases parseCachedJson P.json cached with
  | some cached => trivial
  | none => exact (ResourceDAO.getResources_within userId).bind fun vec => listLoaded_within P userId vec

theorem getResource_within (userId id : ℤ) : (getResource P userId id).Within 5 := by
  refine (act_within _).bind (n := 4) fun cached => ?_
  cases parseCachedJson P.json cached with
  | some cached => trivial
  | none =>
    refine selected_within (n := 1) Nat.one_pos fun r => ?_
    cases P.json.dump r.json with
    | none => trivial
    | some text => exact (act_within _).bind (n := 0) fun _ => trivial

theorem getFileDownloadUrl_within (userId id : ℤ) : (getFileDownloadUrl P userId id).Within 4 := by
  refine selected_within (n := 1) Nat.one_pos fun r => ?_
  cases r.isFile with
  | false => trivial
  | true => exact StorageService.createDownloadUrl_within P r.content

theorem updateResource_within (info : ResourceInfo) : (updateResource info).Within 5 :=
  succeeded_within (n := 2) (ResourceDAO.updateResource_within ..) Nat.two_pos
    ((act_within _).bind (n := 1) fun _ => (act_within _).bind (n := 0) fun _ => trivial)

theorem deleteRow_within (userId id : ℤ) : (deleteRow userId id).Within 5 :=
  succeeded_within (n := 2) (ResourceDAO.deleteResource_within ..) Nat.two_pos
    ((act_within _).bind (n := 1) fun _ => (act_within _).bind (n := 0) fun _ => trivial)

theorem deleteResource_within (userId id : ℤ) : (deleteResource P userId id).Within 9 := by
  refine selected_within (n := 6) (by decide) fun r => ?_
  cases r.isFile with
  | false => exact (deleteRow_within userId id).mono (by decide)
  | true =>
    refine (StorageService.deleteFile_within P r.content).bind (n := 5) fun removed => ?_
    cases removed with
    | error message => trivial
    | ok _ => exact deleteRow_within userId id

end ResourceService

namespace UserService

variable (P : Platform)

theorem createUser_within (info : UserInfo) : (createUser P info).Within 4 :=
  ResourceService.succeeded_within (UserDAO.createUser_within ..) Nat.one_pos trivial

theorem refuse_within (reason : Bytes) : (refuse reason).Within 2 :=
  (act_within _).bind (n := 1) fun _ => readError_within .user

theorem login_within (info : UserInfo) : (login P info).Within 6 := by
  refine (UserDAO.getUserByEmail_within info.email).bind (n := 3) fun user => ?_
  cases user with
  | none => exact (readError_within .user).mono (by decide)
  | some user =>
    dsimp only
    split_ifs
    · exact (refuse_within _).mono (by decide)
    · refine (act_within _).bind (n := 2) fun result => ?_
      rcases result with t | _ | _
      · exact (act_within _).bind (n := 1) fun _ => trivial
      · exact refuse_within _
      · trivial

end UserService

/-- No service call performs more actions. -/
def longestCall : ℕ := 9

/-- **A service call is short.** -/
theorem serve_within (P : Platform) (q : ServiceQuery) : (serve P q).Within longestCall := by
  cases q with
  | logout token => trivial
  | createUser info => exact (UserService.createUser_within P info).mono (by decide)
  | login info => exact (UserService.login_within P info).mono (by decide)
  | createResource info => exact (ResourceService.createResource_within info).mono (by decide)
  | getResources userId => exact (ResourceService.getResources_within P userId).mono (by decide)
  | getResource userId id => exact (ResourceService.getResource_within P userId id).mono (by decide)
  | getFileDownloadUrl userId id => exact (ResourceService.getFileDownloadUrl_within P userId id).mono (by decide)
  | updateResource info => exact (ResourceService.updateResource_within info).mono (by decide)
  | deleteResource userId id => exact ResourceService.deleteResource_within P userId id
  | createUploadUrl userId filename contentType =>
    exact (StorageService.createUploadUrl_within P userId filename contentType).mono (by decide)

/-- Where a statement may fail, every action has a result. -/
theorem World.exists_doesShared {faults : Faults} (hdatabase : faults.database) (order : RowOrder) (a : Action)
    (w : World) : ∃ r w', World.doesShared faults order a w r w' := by
  cases a with
  | redisGet key => exact ⟨w.cache key, w, rfl, Or.inl rfl⟩
  | redisSetex | redisDel => exact ⟨true, _, Or.inl ⟨rfl, rfl⟩⟩
  | insertResource | selectResources | selectResource | updateResource | deleteResource | insertUser
  | selectUser => exact ⟨.error .noConnection, w, Or.inr ⟨hdatabase, ⟨_, rfl⟩, rfl⟩⟩
  | clearMsg | assignMsg => exact ⟨(), _, rfl⟩
  | readMsg => exact ⟨[], w, rfl⟩
  | epochMillis => exact ⟨(0 : ℤ), w, rfl⟩
  | createJwt => exact ⟨.ok [], w, rfl⟩
  | presign => exact ⟨.ok [], w, Or.inr ⟨_, rfl⟩, rfl⟩
  | removeObject => exact ⟨.ok (), _, Or.inl ⟨rfl, rfl⟩⟩

end Service
end ResourceServer
