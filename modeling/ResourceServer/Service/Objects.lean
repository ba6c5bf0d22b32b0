import ResourceServer.Service.Rows

/-!
# The object behind a public URL

`create_upload_url` encodes an object key into a public URL; `get_file_download_url` and
`delete_resource` recover it from the row that stores the URL. All three agree on the key and
the bucket, whatever the environment configures.
-/

namespace ResourceServer
namespace Service

open CString

inductive ObjectUse where
  | sign (method : ObjectMethod) (bucket key : Bytes)
  | remove (bucket key : Bytes)
  deriving DecidableEq, Repr

def Action.objectUse : Action → Option ObjectUse
  | .presign _ method bucket key _ => some (.sign method bucket key)
  | .removeObject _ bucket key => some (.remove bucket key)
  | _ => none

/-- What some calls asked of the object store. -/
def objectUses (calls : List (Event actions)) : List ObjectUse := calls.filterMap (·.op.objectUse)

@[simp] theorem objectUses_nil : objectUses [] = [] := rfl

@[simp] theorem objectUses_cons (e : Event actions) (calls : List (Event actions)) :
    objectUses (e :: calls) = e.op.objectUse.toList ++ objectUses calls := by
  cases h : e.op.objectUse <;> simp [objectUses, h]

@[simp] theorem objectUses_append (calls calls' : List (Event actions)) :
    objectUses (calls ++ calls') = objectUses calls ++ objectUses calls' :=
  List.filterMap_append

def removedObject : Event actions → Option (Bytes × Bytes)
  | ⟨.removeObject _ bucket key, .ok _⟩ => some (bucket, key)
  | _ => none

section Effects

variable {faults : Faults} {order : RowOrder} {a : Action} {w w' : World} {r : a.Ret}

theorem does_objects (h : World.does faults order a w r w') :
    w'.objects = w.objects \ {x | removedObject ⟨a, r⟩ = some x} := by
  have hsame (hnone : removedObject ⟨a, r⟩ = none) (hw : w'.objects = w.objects) :
      w'.objects = w.objects \ {x | removedObject ⟨a, r⟩ = some x} := by
    rw [hnone, hw]
    simp
  cases a with
  | removeObject client bucket key =>
    obtain ⟨rfl, rfl⟩ | ⟨-, ⟨f, rfl⟩, rfl⟩ := h
    · simp [removedObject, eq_comm]
    · exact hsame rfl rfl
  | _ => exact hsame rfl ((World.does_frame h).objects nofun)

theorem exec_objects {α : Type} {p : ServiceProg α} {calls : List (Event actions)} {answer : α}
    (hexec : Prog.Exec (World.does faults order) w p calls w' answer) :
    w'.objects = w.objects \ {x | ∃ e ∈ calls, removedObject e = some x} := by
  induction hexec with
  | ret w answer => simp
  | call hstep _ ih =>
    rw [ih, does_objects hstep, Set.sdiff_sdiff]
    congr 1
    ext x
    simp

theorem exec_objects_of_uses {α : Type} {p : ServiceProg α} {calls : List (Event actions)}
    {answer : α} (hexec : Prog.Exec (World.does faults order) w p calls w' answer)
    (huses : objectUses calls = []) : w'.objects = w.objects := by
  have hnone : {x | ∃ e ∈ calls, removedObject e = some x} = ∅ := by
    ext x
    simp only [Set.mem_ofPred_eq, Set.mem_empty_iff_false, iff_false, not_exists, not_and]
    intro e he hremoved
    have hop : e.op.objectUse = none := List.filterMap_eq_nil_iff.mp huses e he
    unfold removedObject at hremoved
    split at hremoved
    · cases hop
    · cases hremoved
  rw [exec_objects hexec, hnone, Set.sdiff_empty]

end Effects

/-- `getenv` returns a C string. -/
def Platform.CStrings (P : Platform) : Prop :=
  ∀ name value, P.getenv name = some value → nul ∉ value

namespace Platform

variable {P : Platform}

theorem getEnvOrDefault_cstring (hgetenv : P.CStrings) {name : String} {fallback : Bytes}
    (hfallback : nul ∉ fallback) : nul ∉ P.getEnvOrDefault name fallback := by
  unfold getEnvOrDefault
  split
  · exact hfallback
  · exact hfallback
  · exact hgetenv _ _ ‹_›

theorem getStorageEnv_cstring (hgetenv : P.CStrings) {s3Name minioName : String} {fallback : Bytes}
    (hfallback : nul ∉ fallback) : nul ∉ P.getStorageEnv s3Name minioName fallback := by
  unfold getStorageEnv
  split
  · exact getEnvOrDefault_cstring hgetenv hfallback
  · exact getEnvOrDefault_cstring hgetenv (by simp)

theorem bucket_cstring (hgetenv : P.CStrings) : nul ∉ P.bucket :=
  getStorageEnv_cstring hgetenv (by decide)

theorem publicEndpoint_cstring (hgetenv : P.CStrings) : nul ∉ P.publicEndpoint := by
  intro h
  exact getStorageEnv_cstring hgetenv (by decide) ((List.rdropWhile_prefix _ _).subset h)

end Platform

theorem nul_notMem_ofInt (n : ℤ) : nul ∉ Decimal.ofInt n := by
  intro h
  rcases Decimal.mem_ofInt h with h | h
  · exact absurd h (by decide)
  · exact absurd h (by decide)

theorem nul_notMem_sanitizeFilename (filename : Bytes) : nul ∉ sanitizeFilename filename := by
  unfold sanitizeFilename
  dsimp only
  split_ifs
  · simp
  · intro h
    obtain ⟨b, -, hb⟩ := List.mem_map.mp h
    split_ifs at hb with hkept
    · subst hb
      exact absurd hkept (by decide)
    · exact absurd hb (by decide)

/-- The key an upload at `millis` is stored under. -/
def uploadKey (userId millis : ℤ) (filename : Bytes) : Bytes :=
  uploadPrefix userId ++ Decimal.ofInt millis ++ ascii "-" ++ sanitizeFilename filename

theorem uploadKey_ne_nil (userId millis : ℤ) (filename : Bytes) :
    uploadKey userId millis filename ≠ [] := by
  simp [uploadKey, uploadPrefix, ascii]

theorem uploadKey_cstring (userId millis : ℤ) (filename : Bytes) :
    nul ∉ uploadKey userId millis filename := by
  have husers : nul ∉ ascii "users/" := by decide
  have huploads : nul ∉ ascii "/uploads/" := by decide
  have hdash : nul ∉ ascii "-" := by decide
  simp only [uploadKey, uploadPrefix, List.mem_append, not_or]
  exact ⟨⟨⟨⟨⟨husers, nul_notMem_ofInt _⟩, huploads⟩, nul_notMem_ofInt _⟩, hdash⟩,
    nul_notMem_sanitizeFilename _⟩

namespace Platform

variable {P : Platform}

def publicUrl (P : Platform) (key : Bytes) : Bytes :=
  P.publicEndpoint ++ ascii "/" ++ P.bucket ++ ascii "/" ++ key

/-- The prefix match recovers the key, whatever the endpoint and the bucket contain. -/
theorem objectKey_publicUrl (key : Bytes) : P.objectKey (P.publicUrl key) = key := by
  have hprefix : (P.publicEndpoint ++ ascii "/" ++ P.bucket ++ ascii "/").isPrefixOf
      (P.publicUrl key) = true := List.isPrefixOf_iff_prefix.mpr (List.prefix_append _ _)
  rw [objectKey, extractObjectKey, if_pos hprefix, publicUrl, List.drop_left]

theorem publicUrl_cstring (hgetenv : P.CStrings) {key : Bytes} (hkey : nul ∉ key) :
    nul ∉ P.publicUrl key := by
  have hslash : nul ∉ ascii "/" := by decide
  simp only [publicUrl, List.mem_append, not_or]
  exact ⟨⟨⟨⟨publicEndpoint_cstring hgetenv, hslash⟩, bucket_cstring hgetenv⟩, hslash⟩, hkey⟩

end Platform

section Calls

variable {P : Platform} {faults : Faults} {order : RowOrder} {w w' : World}
  {calls : List (Event actions)} {answer : Json}

/-- With an AWS endpoint, a URL is only signed with credentials. -/
def Platform.CanSign (P : Platform) : Prop :=
  ascii "amazonaws.com" <:+: P.publicEndpoint →
    P.getStorageEnv "S3_ACCESS_KEY" "MINIO_ACCESS_KEY" [] ≠ [] ∧
      P.getStorageEnv "S3_SECRET_KEY" "MINIO_SECRET_KEY" [] ≠ []

theorem presign_exec {α : Type} {client : SdkClient} {method : ObjectMethod} {bucket key : Bytes}
    {expires : ℤ} {next : Except SdkFailure Bytes → ServiceProg α} {result : α}
    (hnext : ∀ signed, ∃ a, next signed = .ret a)
    (hexec : Prog.Exec (World.does faults order) w
      (act (.presign client method bucket key expires) >>= next) calls w' result) :
    objectUses calls = [.sign method bucket key] := by
  obtain ⟨signed, w₁, rest, -, rfl, hrest⟩ := exec_act_iff.mp hexec
  obtain ⟨a, ha⟩ := hnext signed
  rw [ha] at hrest
  obtain ⟨rfl, -, -⟩ := Prog.exec_ret_iff.mp hrest
  rfl

theorem createPresignedUrl_exec {method : ObjectMethod} {bucket key : Bytes} {expires : ℤ}
    {result : Option Json}
    (hexec : Prog.Exec (World.does faults order) w
      (createPresignedUrl P method P.publicEndpoint bucket key expires) calls w' result) :
    P.CanSign ∧ objectUses calls = [.sign method bucket key] ∨
      ¬ P.CanSign ∧ objectUses calls = [] ∧ ∃ text, result = some (.error text) := by
  unfold createPresignedUrl at hexec
  split_ifs at hexec with haws
  · unfold createAwsSdkPresignedUrl at hexec
    dsimp only at hexec
    split_ifs at hexec with hcreds
    · obtain ⟨rfl, rfl, rfl⟩ := Prog.exec_ret_iff.mp hexec
      have hcannot : ¬ P.CanSign := fun hsign => by
        obtain ⟨haccess, hsecret⟩ := hsign haws
        exact hcreds.elim haccess hsecret
      exact Or.inr ⟨hcannot, rfl, _, rfl⟩
    · have huses := presign_exec (fun signed => by split <;> exact ⟨_, rfl⟩) hexec
      exact Or.inl ⟨fun _ => not_or.mp hcreds, huses⟩
  · have huses := presign_exec (fun signed => by split <;> exact ⟨_, rfl⟩) hexec
    exact Or.inl ⟨fun h => absurd h haws, huses⟩

theorem createUploadUrl_exec {u : ℤ} {filename contentType : Bytes}
    (hexec : Prog.Exec (World.does faults order) w
      (StorageService.createUploadUrl P u filename contentType) calls w' answer)
    (haccepted : answer.error? = none) :
    ∃ millis, P.CanSign ∧ objectUses calls = [.sign .put P.bucket (uploadKey u millis filename)] ∧
      answer.get? (ascii "public_url") = some (.str (P.publicUrl (uploadKey u millis filename))) ∧
      answer.get? (ascii "object_key") = some (.str (uploadKey u millis filename)) ∧
      answer.get? (ascii "bucket") = some (.str P.bucket) := by
  unfold StorageService.createUploadUrl at hexec
  cases hrefusal : uploadRefusal P filename contentType with
  | some message =>
    rw [hrefusal] at hexec
    obtain ⟨-, -, rfl⟩ := Prog.exec_ret_iff.mp hexec
    simp at haccepted
  | none =>
    rw [hrefusal] at hexec
    obtain ⟨millis, w₁, rest, -, rfl, hrest⟩ := exec_act_iff.mp hexec
    obtain ⟨signing, w₂, upload, last, hsigning, hlast, rfl⟩ := Prog.exec_bind_iff.mp hrest
    have hsigned := createPresignedUrl_exec hsigning
    cases upload with
    | none =>
      obtain ⟨-, -, rfl⟩ := Prog.exec_ret_iff.mp hlast
      simp [StorageService.unavailable] at haccepted
    | some upload =>
      dsimp only at hlast
      split_ifs at hlast with herror
      · obtain ⟨-, -, rfl⟩ := Prog.exec_ret_iff.mp hlast
        simp [haccepted] at herror
      · obtain ⟨rfl, -, rfl⟩ := Prog.exec_ret_iff.mp hlast
        rcases hsigned with ⟨hsign, huses⟩ | ⟨-, -, text, htext⟩
        · refine ⟨millis, hsign, ?_, ?_, ?_, ?_⟩
          · simpa [Action.objectUse, uploadKey] using huses
          · rfl
          · rfl
          · rfl
        · obtain rfl := Option.some.inj htext
          simp at herror

theorem createDownloadUrl_exec {content : Bytes} (hsign : P.CanSign) (hkey : P.objectKey content ≠ [])
    (hexec : Prog.Exec (World.does faults order) w
      (StorageService.createDownloadUrl P content) calls w' answer) :
    objectUses calls = [.sign .get P.bucket (P.objectKey content)] := by
  unfold StorageService.createDownloadUrl at hexec
  dsimp only at hexec
  rw [if_neg hkey] at hexec
  obtain ⟨signing, w₁, download, last, hsigning, hlast, rfl⟩ := Prog.exec_bind_iff.mp hexec
  have hdone : last = [] := by
    split at hlast
    · exact (Prog.exec_ret_iff.mp hlast).1
    · split_ifs at hlast
      all_goals exact (Prog.exec_ret_iff.mp hlast).1
  rcases createPresignedUrl_exec hsigning with ⟨-, huses⟩ | ⟨hcannot, -⟩
  · rw [hdone, List.append_nil, huses]
  · exact absurd hsign hcannot

theorem deleteFile_exec {content : Bytes} {result : Except Bytes Unit}
    (hexec : Prog.Exec (World.does faults order) w
      (StorageService.deleteFile P content) calls w' result) :
    (P.objectKey content = [] ∧ calls = [] ∧ w' = w ∧ ∃ m, result = .error m) ∨
      P.objectKey content ≠ [] ∧ ∃ client,
        (calls = [⟨.removeObject client P.bucket (P.objectKey content), Except.ok ()⟩] ∧
            w' = { w with objects := w.objects \ {(P.bucket, P.objectKey content)} } ∧
            result = .ok ()) ∨
          ∃ f m, calls = [⟨.removeObject client P.bucket (P.objectKey content), Except.error f⟩] ∧
            w' = w ∧ result = .error m := by
  unfold StorageService.deleteFile at hexec
  dsimp only at hexec
  split_ifs at hexec with hkey
  · obtain ⟨rfl, rfl, rfl⟩ := Prog.exec_ret_iff.mp hexec
    exact Or.inl ⟨hkey, rfl, rfl, _, rfl⟩
  · refine Or.inr ⟨hkey, P.minioClient P.internalEndpoint, ?_⟩
    obtain ⟨removal, w₁, rest, hdoes, rfl, hrest⟩ := exec_act_iff.mp hexec
    cases removal with
    | error f =>
      obtain ⟨rfl, rfl, rfl⟩ := Prog.exec_ret_iff.mp hrest
      obtain ⟨-, rfl⟩ := Faults.of_error hdoes
      exact Or.inr ⟨f, _, rfl, rfl, rfl⟩
    | ok removed =>
      obtain ⟨rfl, rfl, rfl⟩ := Prog.exec_ret_iff.mp hrest
      obtain ⟨-, rfl⟩ := Faults.of_ok hdoes
      exact Or.inl ⟨rfl, rfl, rfl⟩

/-- A row is loaded without a use of the object store; only a failed statement misses it. -/
theorem getResource_exec {u i : ℤ} {found : Option Resource}
    (hexec : Prog.Exec (World.does faults order) w (ResourceDAO.getResource u i) calls w' found) :
    objectUses calls = [] ∧ w'.objects = w.objects ∧ w'.resources = w.resources ∧
      (found = (w.found u i).head?.map Row.resource ∨
        found = none ∧ ∃ f, ⟨.selectResource u i, Except.error f⟩ ∈ calls) := by
  obtain ⟨-, w₁, rest, rfl, rfl, hrest⟩ := exec_act_iff.mp hexec
  obtain ⟨result, w₂, last, hdoes, rfl, hlast⟩ := exec_act_iff.mp hrest
  obtain ⟨rfl, rfl⟩ | ⟨-, ⟨f, rfl⟩, rfl⟩ := hdoes
  · cases hrow : (w.found u i).head?.map Row.resource with
    | none =>
      have hnone : ((w.setMsg .resource []).found u i).head?.map Row.resource = none := hrow
      rw [hnone] at hlast
      obtain ⟨-, w₃, last', rfl, rfl, hlast'⟩ := exec_act_iff.mp hlast
      obtain ⟨rfl, rfl, rfl⟩ := Prog.exec_ret_iff.mp hlast'
      exact ⟨rfl, rfl, rfl, Or.inl rfl⟩
    | some r =>
      have hsome : ((w.setMsg .resource []).found u i).head?.map Row.resource = some r := hrow
      rw [hsome] at hlast
      obtain ⟨rfl, rfl, rfl⟩ := Prog.exec_ret_iff.mp hlast
      exact ⟨rfl, rfl, rfl, Or.inl rfl⟩
  · obtain ⟨-, w₃, last', rfl, rfl, hlast'⟩ := exec_act_iff.mp hlast
    obtain ⟨rfl, rfl, rfl⟩ := Prog.exec_ret_iff.mp hlast'
    exact ⟨rfl, rfl, rfl, Or.inr ⟨rfl, f, by simp⟩⟩

theorem deleteRow_exec {u i : ℤ}
    (hexec : Prog.Exec (World.does faults order) w (ResourceService.deleteRow u i) calls w' answer) :
    objectUses calls = [] ∧ w'.objects = w.objects := by
  have hcalls : (ResourceService.deleteRow u i).Calls fun a : Action => a.objectUse = none := by
    refine ⟨rfl, fun _ => ⟨rfl, fun result => ?_⟩⟩
    match result with
    | .error f => exact ⟨rfl, fun _ => ⟨rfl, fun _ => trivial⟩⟩
    | .ok 0 => exact ⟨rfl, fun _ => ⟨rfl, fun _ => trivial⟩⟩
    | .ok (_ + 1) => exact ⟨rfl, fun _ => ⟨rfl, fun _ => trivial⟩⟩
  have huses : objectUses calls = [] := List.filterMap_eq_nil_iff.mpr (hexec.events hcalls)
  exact ⟨huses, exec_objects_of_uses hexec huses⟩

end Calls

/-- A file resource of `u` with the URL as its content. -/
structure Row.IsFileOf (r : Row) (u : ℤ) (url : Bytes) : Prop where
  owner : r.userId = u
  file : r.isFile = true
  content : r.content = url

/-- The calls on a URL act on the object `key` of the configured bucket. -/
structure ActsOn (P : Platform) (faults : Faults) (order : RowOrder) (u : ℤ) (url key : Bytes) :
    Prop where
  /-- A file resource created with the URL stores it. -/
  created : ∀ {w w' : World} {info : ResourceInfo} {calls : List (Event actions)} {answer : Json},
    Prog.Exec (World.does faults order) w (serve P (.createResource info)) calls w' answer →
    answer.error? = none → info.userId = u → info.isFile = true → info.content = url →
    ∃ r ∈ w'.resources.rows, r ∉ w.resources.rows ∧ r.IsFileOf u url
  /-- So does a file resource updated with it. -/
  updated : ∀ {w w' : World} {info : ResourceInfo} {calls : List (Event actions)} {answer : Json},
    Prog.Exec (World.does faults order) w (serve P (.updateResource info)) calls w' answer →
    answer.error? = none → info.userId = u → info.content = url →
    ∀ r ∈ w.resources.rows, r.isAt u info.id = true → r.isFile = true →
    ∃ r' ∈ w'.resources.rows, r'.id = r.id ∧ r'.IsFileOf u url
  /-- A download signs the object, unless the row could not be loaded. -/
  downloaded : ∀ {w w' : World} {r : Row} {calls : List (Event actions)} {answer : Json},
    r ∈ w.resources.rows → r.IsFileOf u url →
    Prog.Exec (World.does faults order) w (serve P (.getFileDownloadUrl u r.id)) calls w' answer →
    objectUses calls = [.sign .get P.bucket key] ∨
      objectUses calls = [] ∧ ∃ f, ⟨.selectResource u r.id, Except.error f⟩ ∈ calls
  /-- A deletion removes the object, and no other. -/
  deleted : ∀ {w w' : World} {r : Row} {calls : List (Event actions)} {answer : Json},
    r ∈ w.resources.rows → r.IsFileOf u url →
    Prog.Exec (World.does faults order) w (serve P (.deleteResource u r.id)) calls w' answer →
    (objectUses calls = [.remove P.bucket key] ∨
      objectUses calls = [] ∧ ∃ f, ⟨.selectResource u r.id, Except.error f⟩ ∈ calls) ∧
    (w'.objects = w.objects \ {(P.bucket, key)} ∨ w'.objects = w.objects ∧ answer.error? ≠ none)

section Acts

variable {P : Platform} {faults : Faults} {order : RowOrder} {w w' : World}
  {calls : List (Event actions)} {answer : Json}

theorem createResource_inserts {info : ResourceInfo}
    (hexec : Prog.Exec (World.does faults order) w (ResourceService.createResource info) calls w'
      answer)
    (hok : answer.error? = none) :
    ∃ id, info.row id ∉ w.resources.rows ∧ info.row id ∈ w'.resources.rows := by
  obtain ⟨-, id, hnext, hpos, hmax, hrows⟩ | ⟨⟨text, rfl⟩, -⟩ := createResource_exec hexec
  · refine ⟨id, ?_, ?_⟩
    · intro hold
      have hid : id < w.resources.nextId := (w.resources.ids _ hold).2
      exact absurd hnext (not_le.mpr hid)
    · rw [hrows]
      exact (Table.mem_insert hnext hpos hmax).mpr (Or.inr rfl)
  · exact absurd hok (Json.error?_error_ne_none text)

theorem createResource_stores {info : ResourceInfo}
    (hexec : Prog.Exec (World.does faults order) w (ResourceService.createResource info) calls w'
      answer)
    (hok : answer.error? = none) : ∃ r ∈ w'.resources.rows, r ∉ w.resources.rows ∧
      r.userId = info.userId ∧ r.isFile = info.isFile ∧ r.content = cstr info.content := by
  obtain ⟨id, hnew, hmem⟩ := createResource_inserts hexec hok
  exact ⟨info.row id, hmem, hnew, rfl, rfl, rfl⟩

theorem updateResource_stores {info : ResourceInfo} {r : Row}
    (hexec : Prog.Exec (World.does faults order) w (ResourceService.updateResource info) calls w'
      answer)
    (hok : answer.error? = none) (hr : r ∈ w.resources.rows)
    (hat : r.isAt info.userId info.id = true) :
    { r with title := cstr info.title, content := cstr info.content } ∈ w'.resources.rows := by
  obtain ⟨-, -, hrows⟩ | ⟨⟨text, rfl⟩, -⟩ := updateResource_exec hexec
  · rw [hrows]
    exact World.mem_updateRows.mpr ⟨r, hr, by rw [if_pos hat]⟩
  · exact absurd hok (Json.error?_error_ne_none text)

theorem getFileDownloadUrl_signs {r : Row} (hsign : P.CanSign) (hfile : r.isFile = true)
    (hkey : P.objectKey r.content ≠ []) (hr : r ∈ w.resources.rows)
    (hexec : Prog.Exec (World.does faults order) w
      (ResourceService.getFileDownloadUrl P r.userId r.id) calls w' answer) :
    objectUses calls = [.sign .get P.bucket (P.objectKey r.content)] ∨
      objectUses calls = [] ∧ ∃ f, ⟨.selectResource r.userId r.id, Except.error f⟩ ∈ calls := by
  obtain ⟨loading, w₁, found, rest, hload, hrest, rfl⟩ := Prog.exec_bind_iff.mp hexec
  have hloaded := getResource_exec hload
  rw [World.found_self hr, List.head?_cons, Option.map_some] at hloaded
  obtain ⟨hnone, -, -, rfl | ⟨rfl, f, hf⟩⟩ := hloaded
  · dsimp only at hrest
    rw [if_neg (by simp [Row.resource, hfile])] at hrest
    left
    rw [objectUses_append, hnone, List.nil_append]
    exact createDownloadUrl_exec hsign hkey hrest
  · obtain ⟨text, -, rfl, -⟩ := readError_exec hrest
    right
    constructor
    · rw [objectUses_append, hnone]
      rfl
    · exact ⟨f, List.mem_append_left _ hf⟩

theorem deleteResource_removes {r : Row} (hfile : r.isFile = true)
    (hkey : P.objectKey r.content ≠ []) (hr : r ∈ w.resources.rows)
    (hexec : Prog.Exec (World.does faults order) w
      (ResourceService.deleteResource P r.userId r.id) calls w' answer) :
    (objectUses calls = [.remove P.bucket (P.objectKey r.content)] ∨
      objectUses calls = [] ∧ ∃ f, ⟨.selectResource r.userId r.id, Except.error f⟩ ∈ calls) ∧
    (w'.objects = w.objects \ {(P.bucket, P.objectKey r.content)} ∨
      w'.objects = w.objects ∧ answer.error? ≠ none) := by
  obtain ⟨loading, w₁, found, rest, hload, hrest, rfl⟩ := Prog.exec_bind_iff.mp hexec
  have hloaded := getResource_exec hload
  rw [World.found_self hr, List.head?_cons, Option.map_some] at hloaded
  obtain ⟨hnone, hobjects, -, rfl | ⟨rfl, f, hf⟩⟩ := hloaded
  · dsimp only at hrest
    rw [if_pos (show r.resource.isFile = true from hfile)] at hrest
    obtain ⟨removing, w₂, removed, last, hremove, hlast, rfl⟩ := Prog.exec_bind_iff.mp hrest
    obtain ⟨hempty, -⟩ | ⟨-, client, ⟨rfl, rfl, rfl⟩ | ⟨f, text, rfl, rfl, rfl⟩⟩ := deleteFile_exec hremove
    · exact absurd hempty hkey
    · obtain ⟨hrow, hgone⟩ := deleteRow_exec hlast
      have hremoved : w'.objects = w.objects \ {(P.bucket, P.objectKey r.content)} := by
        rw [hgone, ← hobjects]
        rfl
      exact ⟨Or.inl (by simp [hnone, hrow, Action.objectUse, Row.resource]), Or.inl hremoved⟩
    · obtain ⟨rfl, rfl, rfl⟩ := Prog.exec_ret_iff.mp hlast
      exact ⟨Or.inl (by simp [hnone, Action.objectUse, Row.resource]),
        Or.inr ⟨hobjects, Json.error?_error_ne_none text⟩⟩
  · obtain ⟨text, ⟨-, rfl⟩, rfl, rfl⟩ := readError_exec hrest
    exact ⟨Or.inr ⟨by simp [hnone, Action.objectUse], f, List.mem_append_left _ hf⟩,
      Or.inr ⟨hobjects, Json.error?_error_ne_none text⟩⟩

end Acts

/-- An upload, a download and a deletion agree on the object: the URL of an accepted upload,
stored in a file resource of the user, leads back to the bucket and the key it was signed for. -/
theorem upload_names_object {P : Platform} {faults : Faults} {order : RowOrder} {w w' : World}
    {u : ℤ} {filename contentType : Bytes} {calls : List (Event actions)} {answer : Json}
    (hgetenv : P.CStrings)
    (hupload : Prog.Exec (World.does faults order) w
      (serve P (.createUploadUrl u filename contentType)) calls w' answer)
    (haccepted : answer.error? = none) :
    ∃ url key, answer.get? (ascii "public_url") = some (.str url) ∧
      answer.get? (ascii "object_key") = some (.str key) ∧
      answer.get? (ascii "bucket") = some (.str P.bucket) ∧
      objectUses calls = [.sign .put P.bucket key] ∧ ActsOn P faults order u url key := by
  obtain ⟨millis, hsign, huses, hurl, hkey, hbucket⟩ := createUploadUrl_exec hupload haccepted
  have hstored : cstr (P.publicUrl (uploadKey u millis filename)) =
      P.publicUrl (uploadKey u millis filename) :=
    cstr_eq_self (Platform.publicUrl_cstring hgetenv (uploadKey_cstring u millis filename))
  have hback {r : Row} (hr : r.IsFileOf u (P.publicUrl (uploadKey u millis filename))) :
      P.objectKey r.content = uploadKey u millis filename := by
    rw [hr.content, Platform.objectKey_publicUrl]
  have hne {r : Row} (hr : r.IsFileOf u (P.publicUrl (uploadKey u millis filename))) :
      P.objectKey r.content ≠ [] := by
    rw [hback hr]
    exact uploadKey_ne_nil u millis filename
  refine ⟨_, _, hurl, hkey, hbucket, huses, ?_, ?_, ?_, ?_⟩
  · intro w w' info calls answer hexec hok hu hfile hcontent
    obtain ⟨r, hr, hnew, hru, hrfile, hrcontent⟩ := createResource_stores hexec hok
    refine ⟨r, hr, hnew, hru.trans hu, hrfile.trans hfile, ?_⟩
    rw [hrcontent, hcontent, hstored]
  · intro w w' info calls answer hexec hok hu hcontent r hr hat hfile
    rw [← hu] at hat
    refine ⟨_, updateResource_stores hexec hok hr hat, rfl, ?_, hfile, ?_⟩
    · exact (Row.isAt_iff.mp hat).1.trans hu
    · exact (congrArg cstr hcontent).trans hstored
  · intro w w' r calls answer hr hfile hexec
    have huser := hfile.owner
    subst huser
    simpa only [hback hfile] using
      getFileDownloadUrl_signs hsign hfile.file (hne hfile) hr hexec
  · intro w w' r calls answer hr hfile hexec
    have huser := hfile.owner
    subst huser
    simpa only [hback hfile] using deleteResource_removes hfile.file (hne hfile) hr hexec

/-- An upload that passes its checks can be signed. -/
theorem exists_upload (P : Platform) (faults : Faults) (order : RowOrder) (w : World) (u millis : ℤ)
    {filename contentType : Bytes} (haccepted : uploadRefusal P filename contentType = none)
    (hminio : ¬ ascii "amazonaws.com" <:+: P.publicEndpoint) :
    ∃ calls answer, Prog.Exec (World.does faults order) w
      (serve P (.createUploadUrl u filename contentType)) calls w answer ∧
      answer.error? = none ∧
      answer.get? (ascii "public_url") = some (.str (P.publicUrl (uploadKey u millis filename))) ∧
      answer.get? (ascii "object_key") = some (.str (uploadKey u millis filename)) ∧
      (⟨.epochMillis, millis⟩ : Event actions) ∈ calls := by
  have hsigning (expires : ℤ) : Prog.Exec (World.does faults order) w
      (createPresignedUrl P .put P.publicEndpoint P.bucket (uploadKey u millis filename) expires)
      [⟨.presign (P.minioClient P.publicEndpoint) .put P.bucket (uploadKey u millis filename) expires,
        Except.ok (ascii "signed")⟩] w (some (.obj [(ascii "url", .str (ascii "signed"))])) := by
    unfold createPresignedUrl
    rw [if_neg hminio]
    exact .call ⟨Or.inr ⟨_, rfl⟩, rfl⟩ (.ret _ _)
  refine ⟨[⟨.epochMillis, millis⟩, ⟨.presign (P.minioClient P.publicEndpoint) .put P.bucket
    (uploadKey u millis filename)
    (P.getStorageEnvInt "S3_UPLOAD_URL_EXPIRES" "MINIO_UPLOAD_URL_EXPIRES" 300),
    Except.ok (ascii "signed")⟩], .obj [(ascii "upload_url", .str (ascii "signed")),
    (ascii "public_url", .str (P.publicUrl (uploadKey u millis filename))),
    (ascii "object_key", .str (uploadKey u millis filename)), (ascii "bucket", .str P.bucket),
    (ascii "content_type", .str contentType), (ascii "expires_in",
      .int (P.getStorageEnvInt "S3_UPLOAD_URL_EXPIRES" "MINIO_UPLOAD_URL_EXPIRES" 300))],
    ?_, rfl, rfl, rfl, List.mem_cons_self⟩
  change Prog.Exec _ _ (StorageService.createUploadUrl P u filename contentType) _ _ _
  unfold StorageService.createUploadUrl
  rw [haccepted]
  exact exec_act_iff.mpr ⟨millis, _, _, rfl, rfl,
    Prog.exec_bind_iff.mpr ⟨_, _, _, [], hsigning _, .ret w _, rfl⟩⟩

def slashed : Platform where
  json := { dump := fun _ => none, parse := fun _ => .error .parseError }
  getenv name :=
    if name = ascii "S3_BUCKET" then some (ascii "files")
    else if name = ascii "MINIO_PUBLIC_ENDPOINT" then some (ascii "http://host//")
    else none
  sha256 _ := []

/-- What user 3 asks for, and the key it gets five milliseconds into the epoch. -/
def slashedKey : Bytes := uploadKey 3 5 (ascii "a b.txt")

theorem slashed_upload :
    slashed.publicUrl slashedKey = ascii "http://host/files/users/3/uploads/5-a_b.txt" ∧
    ActsOn slashed .never ⟨id, fun _ => .refl _⟩ 3 (slashed.publicUrl slashedKey) slashedKey := by
  have hgetenv : slashed.CStrings := by
    intro name value h
    simp only [slashed] at h
    split_ifs at h
    all_goals
      obtain rfl := Option.some.inj h
      decide
  have haccepted : uploadRefusal slashed (ascii "a b.txt") (ascii "text/plain") = none := by
    decide +kernel
  have hminio : ¬ ascii "amazonaws.com" <:+: slashed.publicEndpoint := by
    decide +kernel
  obtain ⟨calls, answer, hexec, hok, hpublic, hobject, -⟩ :=
    exists_upload slashed .never ⟨id, fun _ => .refl _⟩ (.initial (.empty User User.id) ∅) 3 5
      haccepted hminio
  obtain ⟨url, key, hurl, hkey, -, -, hacts⟩ := upload_names_object hgetenv hexec hok
  obtain rfl : slashed.publicUrl slashedKey = url := by
    simpa [hpublic, slashedKey] using hurl
  obtain rfl : slashedKey = key := by
    simpa [hobject, slashedKey] using hkey
  exact ⟨by decide +kernel, hacts⟩

end Service
end ResourceServer
