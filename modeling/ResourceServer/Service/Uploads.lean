import ResourceServer.Service.Objects

/-!
# Uploads

Which uploads get a URL, what their object keys look like, and when two of them share a key.
Some checks look at the name as it came and others at the sanitised one, which has a dot or a
safe byte wherever the name has it.
-/

namespace ResourceServer
namespace Service

open CString

/-- The bytes that a sanitised name keeps. -/
def isSafe (b : UInt8) : Bool := isAlnum b || b = 46 || b = 45 || b = 95

def cleanByte (b : UInt8) : UInt8 := if isSafe b then b else 95

theorem isSafe_cleanByte (b : UInt8) : isSafe (cleanByte b) = true := by
  unfold cleanByte
  split_ifs with h
  · exact h
  · rfl

theorem cleanByte_eq_dot {b : UInt8} : cleanByte b = 46 ↔ b = 46 := by
  unfold cleanByte
  split_ifs with h
  · rfl
  · refine iff_of_false (by decide) ?_
    rintro rfl
    exact h rfl

theorem sanitizeFilename_eq (filename : Bytes) :
    sanitizeFilename filename =
      if filename.map cleanByte = [] ∨ filename.map cleanByte = ascii "." ∨
        filename.map cleanByte = ascii ".." then [] else filename.map cleanByte := by
  have hmap : (filename.map fun b => if isAlnum b || b = 46 || b = 45 || b = 95 then b else 95) =
      filename.map cleanByte := rfl
  rw [sanitizeFilename, hmap]

/-- A run of dots in a sanitised name is one in the name. -/
theorem map_cleanByte_eq_dots {filename : Bytes} {n : ℕ} :
    filename.map cleanByte = List.replicate n 46 ↔ filename = List.replicate n 46 := by
  simp only [List.eq_replicate_iff, List.length_map, List.mem_map, forall_exists_index, and_imp,
    forall_apply_eq_imp_iff₂, cleanByte_eq_dot]

theorem sanitizeFilename_eq_nil {filename : Bytes} :
    sanitizeFilename filename = [] ↔
      filename = [] ∨ filename = ascii "." ∨ filename = ascii ".." := by
  have hone : filename.map cleanByte = ascii "." ↔ filename = ascii "." :=
    map_cleanByte_eq_dots (n := 1)
  have htwo : filename.map cleanByte = ascii ".." ↔ filename = ascii ".." :=
    map_cleanByte_eq_dots (n := 2)
  rw [sanitizeFilename_eq]
  simp only [hone, htwo, List.map_eq_nil_iff]
  split_ifs with h
  · exact iff_of_true rfl h
  · rw [List.map_eq_nil_iff]
    exact ⟨Or.inl, fun h' => absurd h' h⟩

theorem sanitizeFilename_of_ne_nil {filename : Bytes} (h : sanitizeFilename filename ≠ []) :
    sanitizeFilename filename = filename.map cleanByte := by
  rw [sanitizeFilename_eq] at h ⊢
  split_ifs at h ⊢
  · exact absurd rfl h
  · rfl

theorem dots_infix_map {filename : Bytes} (h : ascii ".." <:+: filename.map cleanByte) :
    ascii ".." <:+: filename := by
  obtain ⟨s, t, hst⟩ := h
  obtain ⟨front, back, rfl, hfront, -⟩ := List.map_eq_append_iff.mp hst.symm
  obtain ⟨before, dots, rfl, -, hdots⟩ := List.map_eq_append_iff.mp hfront
  have hdots : dots = ascii ".." := (map_cleanByte_eq_dots (n := 2)).mp hdots
  exact ⟨before, back, by rw [hdots]⟩

/-- `max_filename_length`. -/
def Platform.maxFilenameLength (P : Platform) : ℤ :=
  P.getStorageEnvInt "S3_MAX_FILENAME_LENGTH" "MINIO_MAX_FILENAME_LENGTH" 255

/-- The uploads that should pass. -/
structure Uploadable (maxLength : ℤ) (filename contentType : Bytes) : Prop where
  nonempty : filename ≠ []
  not_dot : filename ≠ ascii "."
  length : (filename.length : ℤ) ≤ maxLength
  no_slash : 47 ∉ filename
  no_backslash : 92 ∉ filename
  no_dots : ¬ ascii ".." <:+: filename
  extension : fileExtension (sanitizeFilename filename) ∉ blockedExtensions
  content_type : contentType.map toLower ∈ allowedContentTypes

theorem hasPathTraversal_eq_false {filename : Bytes} :
    hasPathTraversal filename = false ↔
      47 ∉ filename ∧ 92 ∉ filename ∧ ¬ ascii ".." <:+: filename := by
  simp [hasPathTraversal, and_assoc]

theorem getEnvIntOrDefault_le (P : Platform) (name : String) {fallback : ℤ}
    (hfallback : fallback ≤ intMax) : P.getEnvIntOrDefault name fallback ≤ intMax := by
  unfold Platform.getEnvIntOrDefault
  split
  · exact hfallback
  · exact hfallback
  · dsimp only
    split_ifs
    · exact hfallback
    · exact (toInt32_range _).2

theorem maxFilenameLength_le (P : Platform) : P.maxFilenameLength ≤ intMax := by
  unfold Platform.maxFilenameLength Platform.getStorageEnvInt
  split
  · exact getEnvIntOrDefault_le P _ (by decide)
  · exact getEnvIntOrDefault_le P _ (by decide)

/-- Each check of the code is one of the conditions, and together they are all of them. -/
theorem uploadRefusal_eq_none {P : Platform} {filename contentType : Bytes}
    (hmax : 0 < P.maxFilenameLength) :
    uploadRefusal P filename contentType = none ↔
      Uploadable P.maxFilenameLength filename contentType := by
  have hmod : P.maxFilenameLength % 2 ^ 64 = P.maxFilenameLength := by
    have hle := maxFilenameLength_le P
    simp only [intMax] at hle
    exact Int.emod_eq_of_lt hmax.le (by omega)
  unfold uploadRefusal
  change (if _ then _ else if P.maxFilenameLength % 2 ^ 64 < _ then _ else _) = none ↔ _
  rw [hmod]
  split_ifs with hclean hlength htraversal hblocked htype hallowed
  · refine iff_of_false nofun fun h => ?_
    rcases sanitizeFilename_eq_nil.mp hclean with rfl | rfl | rfl
    · exact h.nonempty rfl
    · exact h.not_dot rfl
    · exact h.no_dots List.infix_rfl
  · refine iff_of_false nofun fun h => ?_
    have := h.length
    omega
  · refine iff_of_false nofun fun h => ?_
    rw [hasPathTraversal_eq_false.mpr ⟨h.no_slash, h.no_backslash, h.no_dots⟩] at htraversal
    cases htraversal
  · refine iff_of_false nofun fun h => h.extension ?_
    simpa [isBlockedExtension] using hblocked
  · refine iff_of_false nofun fun h => ?_
    have hmem := h.content_type
    rw [htype] at hmem
    exact absurd hmem (by decide)
  · refine iff_of_false nofun fun h => ?_
    have hmem : isAllowedContentType contentType = true := by
      simpa [isAllowedContentType] using h.content_type
    simp [hmem] at hallowed
  · obtain ⟨hslash, hbackslash, hdots⟩ :=
      hasPathTraversal_eq_false.mp (Bool.eq_false_of_not_eq_true htraversal)
    have hname := mt sanitizeFilename_eq_nil.mpr hclean
    rw [not_or, not_or] at hname
    refine iff_of_true rfl ⟨hname.1, hname.2.1, by omega, hslash, hbackslash, hdots, ?_, ?_⟩
    · simpa [isBlockedExtension] using hblocked
    · simpa [isAllowedContentType] using hallowed

/-- A key below the user's prefix whose last component is a number and a safe name. -/
structure SafeKey (userId : ℤ) (filename key digits name : Bytes) : Prop where
  shape : key = ascii "users/" ++ Decimal.ofInt userId ++ ascii "/uploads/" ++ digits ++
    ascii "-" ++ name
  digits_ne_nil : digits ≠ []
  digits_only : ∀ b ∈ digits, isDigit b = true
  name_ne_nil : name ≠ []
  name_length : name.length = filename.length
  name_safe : ∀ b ∈ name, isAlnum b = true ∨ b = 46 ∨ b = 45 ∨ b = 95
  no_dots : ¬ ascii ".." <:+: name
  extension : fileExtension key ∉ blockedExtensions

theorem fileExtension_append {front name : Bytes} (hfront : 46 ∉ front) :
    fileExtension (front ++ name) = fileExtension name := by
  unfold fileExtension
  by_cases hdot : 46 ∈ name
  · have hshort : ¬ (name.reverse.takeWhile (· ≠ 46)).length = name.reverse.length := by
      intro hlen
      have hall := (List.takeWhile_prefix (fun b : UInt8 => decide (b ≠ 46))).eq_of_length hlen
      have hne := List.takeWhile_eq_self_iff.mp hall 46 (List.mem_reverse.mpr hdot)
      simp at hne
    have htake : (front ++ name).rtakeWhile (· ≠ 46) = name.rtakeWhile (· ≠ 46) := by
      rw [List.rtakeWhile, List.reverse_append, List.takeWhile_append, if_neg hshort,
        List.rtakeWhile]
    have hfull : 46 ∈ front ++ name := List.mem_append_right _ hdot
    rw [if_pos (List.contains_iff_mem.mpr hfull), if_pos (List.contains_iff_mem.mpr hdot), htake]
  · simp [hfront, hdot]

theorem dot_notMem_ofInt (n : ℤ) : (46 : UInt8) ∉ Decimal.ofInt n := by
  intro h
  rcases Decimal.mem_ofInt h with h | h
  · exact absurd h (by decide)
  · exact absurd h (by decide)

theorem uploadKey_safe {maxLength : ℤ} {filename contentType : Bytes} (userId : ℤ) (millis : ℕ)
    (h : Uploadable maxLength filename contentType) :
    SafeKey userId filename (uploadKey userId millis filename) (Decimal.ofNat millis)
      (filename.map cleanByte) := by
  have hclean : sanitizeFilename filename ≠ [] := by
    intro hnil
    rcases sanitizeFilename_eq_nil.mp hnil with rfl | rfl | rfl
    · exact h.nonempty rfl
    · exact h.not_dot rfl
    · exact h.no_dots List.infix_rfl
  have hname := sanitizeFilename_of_ne_nil hclean
  constructor
  · rw [uploadKey, uploadPrefix, hname]
    rfl
  · exact Decimal.ofNat_ne_nil millis
  · intro b hb
    exact Decimal.isDigit_of_mem hb
  · rw [← hname]
    exact hclean
  · exact List.length_map _
  · intro b hb
    obtain ⟨a, -, rfl⟩ := List.mem_map.mp hb
    have hsafe := isSafe_cleanByte a
    simpa [isSafe, or_assoc] using hsafe
  · exact fun hdots => h.no_dots (dots_infix_map hdots)
  · have hfront : 46 ∉ uploadPrefix userId ++ Decimal.ofInt millis ++ ascii "-" := by
      have husers : (46 : UInt8) ∉ ascii "users/" := by decide
      have huploads : (46 : UInt8) ∉ ascii "/uploads/" := by decide
      have hdash : (46 : UInt8) ∉ ascii "-" := by decide
      simp only [uploadPrefix, List.mem_append, not_or]
      exact ⟨⟨⟨⟨husers, dot_notMem_ofInt _⟩, huploads⟩, dot_notMem_ofInt _⟩, hdash⟩
    rw [uploadKey, fileExtension_append hfront]
    exact h.extension

variable {σ : Type} {R : Env actions σ} {s s' : σ} {calls : List (Event actions)} {P : Platform}

/-- The SDK is asked for the key it was given, and for nothing else. -/
theorem createPresignedUrl_calls (P : Platform) (method : ObjectMethod)
    (endpoint bucket key : Bytes) (expires : ℤ) :
    (createPresignedUrl P method endpoint bucket key expires).Calls fun op : Action =>
      ∃ client, op = .presign client method bucket key expires := by
  unfold createPresignedUrl
  split_ifs
  · unfold createAwsSdkPresignedUrl
    dsimp only
    split_ifs
    · trivial
    · refine ⟨⟨_, rfl⟩, fun result => ?_⟩
      dsimp only [Prog.bind]
      split <;> trivial
  · refine ⟨⟨_, rfl⟩, fun result => ?_⟩
    dsimp only [Prog.bind]
    split <;> trivial

theorem createUploadUrl_runs {u : ℤ} {filename contentType : Bytes} {answer : Json}
    (hexec : Prog.Exec R s (StorageService.createUploadUrl P u filename contentType) calls s' answer)
    (hpass : uploadRefusal P filename contentType = none) :
    ∃ (millis : ℤ) (rest : List (Event actions)), calls = ⟨.epochMillis, millis⟩ :: rest ∧
      (∀ e ∈ rest, ∃ client expires,
        e.op = .presign client .put P.bucket (uploadKey u millis filename) expires) ∧
      (answer.error? = none →
        answer.get? (ascii "object_key") = some (.str (uploadKey u millis filename))) := by
  unfold StorageService.createUploadUrl at hexec
  rw [hpass] at hexec
  obtain ⟨millis, s₁, rest, -, rfl, hrest⟩ := exec_act_iff.mp hexec
  obtain ⟨signing, s₂, upload, last, hsigning, hlast, rfl⟩ := Prog.exec_bind_iff.mp hrest
  have hcalls := hsigning.events (createPresignedUrl_calls P .put _ _ _ _)
  have hsigned : ∀ e ∈ signing ++ [], ∃ client expires,
      e.op = .presign client .put P.bucket (uploadKey u millis filename) expires := by
    intro e he
    rw [List.append_nil] at he
    obtain ⟨client, hop⟩ := hcalls e he
    exact ⟨client, _, hop⟩
  cases upload with
  | none =>
    obtain ⟨rfl, -, rfl⟩ := Prog.exec_ret_iff.mp hlast
    exact ⟨millis, _, rfl, hsigned, fun h => by simp [StorageService.unavailable] at h⟩
  | some upload =>
    dsimp only at hlast
    split_ifs at hlast with herror
    · obtain ⟨rfl, -, rfl⟩ := Prog.exec_ret_iff.mp hlast
      refine ⟨millis, _, rfl, hsigned, fun h => ?_⟩
      rw [h] at herror
      cases herror
    · obtain ⟨rfl, -, rfl⟩ := Prog.exec_ret_iff.mp hlast
      exact ⟨millis, _, rfl, hsigned, fun _ => rfl⟩

/-- **Upload validation.** Exactly the uploadable names and types get to the clock and the
storage SDK, and then with a safe key. -/
theorem upload_validation_exact (P : Platform) (hmax : 0 < P.maxFilenameLength) (R : Env actions σ)
    (u : ℤ) (filename contentType : Bytes) (s s' : σ) (calls : List (Event actions)) (answer : Json)
    (hexec : Prog.Exec R s (StorageService.createUploadUrl P u filename contentType) calls s' answer) :
    ((∃ millis : ℤ, (⟨.epochMillis, millis⟩ : Event actions) ∈ calls) ↔
        Uploadable P.maxFilenameLength filename contentType) ∧
      (¬ Uploadable P.maxFilenameLength filename contentType →
        calls = [] ∧ ∃ text, answer = .error text) ∧
      ∀ millis : ℕ, (⟨.epochMillis, (millis : ℤ)⟩ : Event actions) ∈ calls →
        ∃ key digits name, SafeKey u filename key digits name ∧
          (∀ e ∈ calls, e.op = .epochMillis ∨
            ∃ client expires, e.op = .presign client .put P.bucket key expires) ∧
          (answer.error? = none → answer.get? (ascii "object_key") = some (.str key)) := by
  have hiff : uploadRefusal P filename contentType = none ↔ _ := uploadRefusal_eq_none hmax
  by_cases hpass : uploadRefusal P filename contentType = none
  · have hok := hiff.mp hpass
    obtain ⟨read, rest, rfl, hrest, hanswer⟩ := createUploadUrl_runs hexec hpass
    refine ⟨iff_of_true ⟨read, List.mem_cons_self⟩ hok, fun h => absurd hok h, ?_⟩
    intro millis hmem
    have hread : read = millis := by
      rcases List.mem_cons.mp hmem with heq | hmem
      · cases heq
        rfl
      · obtain ⟨client, expires, hop⟩ := hrest _ hmem
        cases hop
    subst hread
    refine ⟨_, _, _, uploadKey_safe u millis hok, ?_, hanswer⟩
    intro e he
    rcases List.mem_cons.mp he with rfl | he
    · exact Or.inl rfl
    · exact Or.inr (hrest e he)
  · have hbad := mt hiff.mpr hpass
    obtain ⟨message, hmessage⟩ := Option.ne_none_iff_exists'.mp hpass
    unfold StorageService.createUploadUrl at hexec
    rw [hmessage] at hexec
    obtain ⟨rfl, -, rfl⟩ := Prog.exec_ret_iff.mp hexec
    exact ⟨iff_of_false nofun hbad, fun _ => ⟨rfl, message, rfl⟩, nofun⟩

theorem spaced_upload_safe :
    ∃ key digits name, SafeKey 3 (ascii "a b.txt") key digits name ∧
      key = ascii "users/3/uploads/5-a_b.txt" := by
  have haccepted : uploadRefusal slashed (ascii "a b.txt") (ascii "text/plain") = none := by
    decide +kernel
  obtain ⟨calls, answer, hexec, hok, -, hkey, hclock⟩ :=
    exists_upload slashed .never ⟨id, fun _ => .refl _⟩ (.initial (.empty User User.id) ∅) 3 5
      haccepted (by decide +kernel)
  obtain ⟨key, digits, name, hsafe, -, hanswer⟩ := (upload_validation_exact slashed (by decide +kernel)
    _ 3 (ascii "a b.txt") (ascii "text/plain") _ _ calls answer hexec).2.2 5 hclock
  refine ⟨key, digits, name, hsafe, ?_⟩
  have hsame : uploadKey 3 5 (ascii "a b.txt") = key := by
    simpa [hkey] using hanswer hok
  rw [← hsame]
  decide +kernel

theorem uploadKey_injective {u u' millis millis' : ℤ} {filename filename' : Bytes}
    (h : uploadKey u millis filename = uploadKey u' millis' filename') :
    u = u' ∧ millis = millis' ∧ sanitizeFilename filename = sanitizeFilename filename' := by
  have hslash : ascii "/uploads/" = 47 :: ascii "uploads/" := rfl
  have hdash : ascii "-" = [45] := rfl
  simp only [uploadKey, uploadPrefix, hslash, hdash, List.append_assoc, List.append_cancel_left_eq,
    List.cons_append, List.nil_append] at h
  obtain ⟨hu, hrest⟩ := Decimal.ofInt_append_injective (by decide) h
  obtain ⟨hmillis, hname⟩ := Decimal.ofInt_append_injective (by decide) (List.append_cancel_left hrest)
  exact ⟨hu, hmillis, hname⟩

/-- An accepted call: what it was asked, when it read the clock, and the key it handed out. -/
structure Upload where
  userId : ℤ
  filename : Bytes
  contentType : Bytes
  millis : ℤ
  key : Bytes
  deriving DecidableEq

namespace Upload

def IssuedBy (P : Platform) (e : Upload) : Prop :=
  ∃ faults order w w' calls answer, Prog.Exec (World.does faults order) w
    (serve P (.createUploadUrl e.userId e.filename e.contentType)) calls w' answer ∧
    answer.error? = none ∧ (⟨.epochMillis, e.millis⟩ : Event actions) ∈ calls ∧
    answer.get? (ascii "object_key") = some (.str e.key)

/-- Accepted calls of any users, on any threads or in any processes, in the order in which
they read the clock. -/
inductive Step (P : Platform) : List Upload → Upload → List Upload → Prop where
  | mk {log : List Upload} {e : Upload} (hissued : e.IssuedBy P)
      (hclock : ∀ e' ∈ log, e'.millis ≤ e.millis) : Step P log e (log ++ [e])

/-- Another user, another millisecond, or another name. -/
def Differs (a b : Upload) : Prop :=
  a.userId ≠ b.userId ∨ a.millis ≠ b.millis ∨
    sanitizeFilename a.filename ≠ sanitizeFilename b.filename

theorem IssuedBy.key_eq {P : Platform} {e : Upload} (h : e.IssuedBy P) :
    e.key = uploadKey e.userId e.millis e.filename := by
  obtain ⟨faults, order, w, w', calls, answer, hexec, hok, hclock, hkey⟩ := h
  cases hrefusal : uploadRefusal P e.filename e.contentType with
  | some message =>
    change Prog.Exec _ _ (StorageService.createUploadUrl P _ _ _) _ _ _ at hexec
    unfold StorageService.createUploadUrl at hexec
    rw [hrefusal] at hexec
    obtain ⟨rfl, -, -⟩ := Prog.exec_ret_iff.mp hexec
    cases hclock
  | none =>
    obtain ⟨millis, rest, rfl, hrest, hanswer⟩ := createUploadUrl_runs hexec hrefusal
    have hmillis : e.millis = millis := by
      rcases List.mem_cons.mp hclock with heq | hmem
      · cases heq
        rfl
      · obtain ⟨client, expires, hop⟩ := hrest _ hmem
        cases hop
    have hgot := (hanswer hok).symm.trans hkey
    rw [hmillis]
    simpa using hgot.symm

/-- Every key of a run is made of the user, the reading and the name of its call. -/
theorem keys_of_reaches {P : Platform} {log : List Upload} (hrun : Reaches (Step P) [] log) :
    ∀ e ∈ log, e.key = uploadKey e.userId e.millis e.filename := by
  refine hrun.invariant (I := fun log : List Upload => ∀ e ∈ log,
    e.key = uploadKey e.userId e.millis e.filename) ?_ nofun
  rintro log e _ hlog ⟨hissued, -⟩ e' he'
  rcases List.mem_append.mp he' with he' | he'
  · exact hlog e' he'
  · obtain rfl := List.mem_singleton.mp he'
    exact hissued.key_eq

/-- The keys of a run are distinct exactly if no two of its calls come from one user in one
millisecond with names that are sanitised to one. -/
theorem keys_nodup_iff (P : Platform) (log : List Upload) (hrun : Reaches (Step P) [] log) :
    (log.map key).Nodup ↔ log.Pairwise Differs := by
  have hkeys := keys_of_reaches hrun
  rw [List.Nodup, List.pairwise_map]
  apply List.Pairwise.iff_of_mem
  intro a b ha hb
  rw [hkeys a ha, hkeys b hb]
  constructor
  · intro hne
    by_contra hsame
    simp only [Differs, not_or, not_not] at hsame
    obtain ⟨hu, hmillis, hname⟩ := hsame
    apply hne
    rw [uploadKey, uploadKey, hu, hmillis, hname]
  · rintro hdiffers heq
    obtain ⟨hu, hmillis, hname⟩ := uploadKey_injective heq
    rcases hdiffers with h | h | h
    · exact h hu
    · exact h hmillis
    · exact h hname

/-- An upload of user 3, five milliseconds into the epoch. -/
def early (filename : String) : Upload :=
  ⟨3, ascii filename, ascii "text/plain", 5, uploadKey 3 5 (ascii filename)⟩

theorem early_issued {filename : String}
    (haccepted : uploadRefusal slashed (ascii filename) (ascii "text/plain") = none) :
    (early filename).IssuedBy slashed := by
  obtain ⟨calls, answer, hexec, hok, -, hkey, hclock⟩ :=
    exists_upload slashed .never ⟨id, fun _ => .refl _⟩ (.initial (.empty User User.id) ∅) 3 5
      haccepted (by decide +kernel)
  exact ⟨_, _, _, _, calls, answer, hexec, hok, hclock, hkey⟩

theorem early_runs {a b : String}
    (ha : uploadRefusal slashed (ascii a) (ascii "text/plain") = none)
    (hb : uploadRefusal slashed (ascii b) (ascii "text/plain") = none) :
    Reaches (Step slashed) [] [early a, early b] := by
  have hfirst : Reaches (Step slashed) [] [early a] :=
    Runs.snoc .refl (@Step.mk slashed [] (early a) (early_issued ha) nofun) trivial
  refine hfirst.snoc (@Step.mk slashed [early a] (early b) (early_issued hb) ?_) trivial
  intro e he
  obtain rfl := List.mem_singleton.mp he
  exact le_rfl

theorem two_names_distinct : ([early "a.txt", early "b.txt"].map key).Nodup := by
  apply (keys_nodup_iff slashed _ (early_runs (by decide +kernel) (by decide +kernel))).mpr
  refine List.pairwise_pair.mpr (Or.inr (Or.inr ?_))
  decide +kernel

/-- `a b.txt` and `a_b.txt`, uploaded in one millisecond, are one object. -/
theorem same_millisecond_collides :
    ∃ log, Reaches (Step slashed) [] log ∧ ¬ (log.map key).Nodup := by
  refine ⟨_, early_runs (a := "a b.txt") (b := "a_b.txt") (by decide +kernel) (by decide +kernel), ?_⟩
  decide +kernel

end Upload

end Service
end ResourceServer
