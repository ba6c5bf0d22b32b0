import Mathlib.Data.List.DropRight
import ResourceServer.Foundation.Assignments

/-!
# The saved session

`authStore.ts`: the token, the user id and the user name of a session in the browser's
`localStorage`. Any access to the storage may throw, a write when it is full, a read when
the browser denies it.
-/

namespace ResourceServer
namespace Frontend

/-- A string, by UTF-16 code units. -/
abbrev Text := List UInt16

/-- The string of an ASCII literal. -/
def text (s : String) : Text := s.toList.map fun c => UInt16.ofNat c.toNat

/-- The part of the browser that the store sees. `throws n` tells whether the `n`-th access
from now throws. -/
structure Browser where
  -- `window` is defined
  window : Bool
  localStorage : Text → Option Text
  throws : ℕ → Bool

inductive Thrown where
  -- by the storage, or for want of a `window`
  | storage
  | error (message : Text)
  deriving DecidableEq, Repr

/-- A program that changes the browser, also when it throws. -/
abbrev Script := ExceptT Thrown (StateM Browser)

namespace Browser

def fails (b : Browser) (n : ℕ) : Bool := !b.window || b.throws n

/-- The browser behind an access that has left `localStorage`. -/
def accessed (b : Browser) (localStorage : Text → Option Text) : Browser :=
  { b with localStorage := localStorage, throws := fun n => b.throws (n + 1) }

end Browser

/-- One access to `window.localStorage`. -/
def access {α : Type} (f : (Text → Option Text) → α × (Text → Option Text)) : Script α := fun b =>
  if b.fails 0 then (.error .storage, b.accessed b.localStorage)
  else (.ok (f b.localStorage).1, b.accessed (f b.localStorage).2)

def getItem (key : Text) : Script (Option Text) := access fun l => (l key, l)

def setItem (key value : Text) : Script Unit := access fun l => ((), Function.update l key (some value))

def removeItem (key : Text) : Script Unit := access fun l => ((), Function.update l key none)

/-- `typeof window !== "undefined"` -/
def windowDefined : Script Bool := do return (← get).window

/-- The code units that `trim()` removes. -/
def isWhiteSpace (c : UInt16) : Bool :=
  c ∈ ([9, 10, 11, 12, 13, 32, 0xA0, 0x1680, 0x2028, 0x2029, 0x202F, 0x205F, 0x3000, 0xFEFF] : List UInt16) ||
    (0x2000 ≤ c && c ≤ 0x200A)

def trim (s : Text) : Text := (s.dropWhile isWhiteSpace).rdropWhile isWhiteSpace

/-- `toLowerCase()`, as far as the placeholders go: what it makes of a character beyond
ASCII is in neither of them. -/
def toLowerCase (s : Text) : Text := s.map fun c => if 65 ≤ c ∧ c ≤ 90 then c + 32 else c

def truthy : Option Text → Bool
  | none | some [] => false
  | some (_ :: _) => true

/-- `undefined` and `null` are `none`. -/
def normalizeUserName (userName : Option Text) : Option Text :=
  match userName.map trim with
  | none => none
  | some trimmed =>
    if !truthy (some trimmed) then none
    else if toLowerCase trimmed = text "undefined" ∨ toLowerCase trimmed = text "null" then none
    else some trimmed

def tokenStorageKey : Text := text "resource_manager_token"
def userIdStorageKey : Text := text "resource_manager_user_id"
def userNameStorageKey : Text := text "resource_manager_user_name"

section Save

variable {Number : Type} (string : Number → Text)

/-- The `try` block. `string` is `String`. -/
def writeAuthSession (token : Text) (userId : Number) (userName : Option Text) : Script Unit := do
  setItem tokenStorageKey token
  setItem userIdStorageKey (string userId)
  match normalizeUserName userName with
  | some normalizedUserName =>
    if truthy (some normalizedUserName) then setItem userNameStorageKey normalizedUserName
    else removeItem userNameStorageKey
  | none => removeItem userNameStorageKey

def saveAuthSession (token : Text) (userId : Number) (userName : Option Text) : Script Unit :=
  tryCatch (writeAuthSession string token userId userName) fun _ =>
    throw (.error (text "Unable to save login session in this browser."))

end Save

def getAuthToken : Script (Option Text) := do
  if !(← windowDefined) then return none
  tryCatch (getItem tokenStorageKey) fun _ => return none

def getAuthUserName : Script (Option Text) := do
  if !(← windowDefined) then return none
  let read : Script (Option (Option Text)) := tryCatch
    (do return some (normalizeUserName (← getItem userNameStorageKey))) fun _ => return none
  match ← read with
  -- the `catch` returns
  | none => return none
  | some userName =>
    if !truthy userName then
      tryCatch (do removeItem userNameStorageKey; return userName) fun _ => return none
    else return userName

namespace Script

variable {α β : Type}

@[simp] theorem bind_apply (x : Script α) (f : α → Script β) (b : Browser) :
    (x >>= f) b = match x b with
      | (.ok a, b') => f a b'
      | (.error e, b') => (.error e, b') := by
  simp only [bind, ExceptT.bind, ExceptT.mk, StateT.bind, ExceptT.bindCont]
  rcases x b with ⟨_ | _, b'⟩ <;> rfl

@[simp] theorem map_apply (f : α → β) (x : Script α) (b : Browser) :
    (f <$> x) b = match x b with
      | (.ok a, b') => (.ok (f a), b')
      | (.error e, b') => (.error e, b') := by
  rw [← bind_pure_comp, bind_apply]
  rfl

@[simp] theorem tryCatch_apply (x : Script α) (handle : Thrown → Script α) (b : Browser) :
    (tryCatch x handle : Script α) b = match x b with
      | (.ok a, b') => (.ok a, b')
      | (.error e, b') => handle e b' := by
  simp only [tryCatch, tryCatchThe, MonadExceptOf.tryCatch, ExceptT.tryCatch, ExceptT.mk, bind, StateT.bind]
  rcases x b with ⟨_ | _, b'⟩ <;> rfl

@[simp] theorem pure_apply (a : α) (b : Browser) : (pure a : Script α) b = (.ok a, b) := rfl

@[simp] theorem access_apply (f : (Text → Option Text) → α × (Text → Option Text)) (b : Browser) :
    access f b = if b.fails 0 then (.error .storage, b.accessed b.localStorage)
      else (.ok (f b.localStorage).1, b.accessed (f b.localStorage).2) := rfl

@[simp] theorem windowDefined_apply (b : Browser) : windowDefined b = (.ok b.window, b) := rfl

end Script

theorem trim_trim (s : Text) : trim (trim s) = trim s := by
  have hhead : (trim s).dropWhile isWhiteSpace = trim s := by
    rw [List.dropWhile_eq_self_iff]
    intro hpos
    have hprefix : trim s <+: s.dropWhile isWhiteSpace := List.rdropWhile_prefix isWhiteSpace _
    have hpos' : 0 < (s.dropWhile isWhiteSpace).length := hpos.trans_le hprefix.length_le
    have hfirst : (trim s)[0] = (s.dropWhile isWhiteSpace)[0] := hprefix.getElem hpos
    rw [hfirst]
    exact List.dropWhile_get_zero_not isWhiteSpace s hpos'
  rw [trim, hhead]
  exact List.rdropWhile_idempotent isWhiteSpace _

theorem normalizeUserName_eq_some {userName : Option Text} {name : Text}
    (h : normalizeUserName userName = some name) :
    truthy (some name) = true ∧ trim name = name ∧
      ¬ (toLowerCase name = text "undefined" ∨ toLowerCase name = text "null") := by
  unfold normalizeUserName at h
  split at h
  · cases h
  · next trimmed htrimmed =>
    split_ifs at h with htruthy hplaceholder
    cases h
    obtain ⟨s, -, rfl⟩ := Option.map_eq_some_iff.mp htrimmed
    refine ⟨by simpa using htruthy, trim_trim s, hplaceholder⟩

@[simp] theorem normalizeUserName_idempotent (userName : Option Text) :
    normalizeUserName (normalizeUserName userName) = normalizeUserName userName := by
  cases h : normalizeUserName userName with
  | none => rfl
  | some name =>
    obtain ⟨htruthy, htrim, hplaceholder⟩ := normalizeUserName_eq_some h
    simp [normalizeUserName, htrim, htruthy, hplaceholder]

example : normalizeUserName (some (text " Undefined ")) = none := by decide +kernel

open Assignments

def write (w : Text × Option Text) : Script Unit := access fun l => ((), assign l w)

section Save

variable {Number : Type} (string : Number → Text)

def sessionWrites (token : Text) (userId : Number) (userName : Option Text) : List (Text × Option Text) :=
  [(tokenStorageKey, some token), (userIdStorageKey, some (string userId)),
    (userNameStorageKey, normalizeUserName userName)]

theorem writeAuthSession_eq (token : Text) (userId : Number) (userName : Option Text) :
    writeAuthSession string token userId userName =
      forM (sessionWrites string token userId userName) write := by
  unfold writeAuthSession sessionWrites
  cases h : normalizeUserName userName with
  | none => simp [setItem, removeItem, write, assign]
  | some name =>
    obtain ⟨htruthy, -, -⟩ := normalizeUserName_eq_some h
    simp [setItem, write, assign, htruthy]

theorem sessionWrites_nodup (token : Text) (userId : Number) (userName : Option Text) :
    ((sessionWrites string token userId userName).map Prod.fst).Nodup := by
  change [tokenStorageKey, userIdStorageKey, userNameStorageKey].Nodup
  decide +kernel

end Save

theorem forM_write_apply (ws : List (Text × Option Text)) (b : Browser) :
    (forM ws write b).1 = (if (attempt b.fails ws b.localStorage).1 then .ok () else .error .storage) ∧
      (forM ws write b).2.localStorage = (attempt b.fails ws b.localStorage).2 := by
  induction ws generalizing b with
  | nil => exact ⟨rfl, rfl⟩
  | cons w ws ih =>
    rw [List.forM_cons, Script.bind_apply, attempt]
    cases hfails : b.fails 0 with
    | true => simp [write, access, hfails, Browser.accessed]
    | false =>
      simp only [write, access, hfails]
      exact ih (b.accessed (assign b.localStorage w))

section Save

variable {Number : Type} (string : Number → Text) (token : Text) (userId : Number)
  (userName : Option Text) (b : Browser)

theorem saveAuthSession_apply :
    (saveAuthSession string token userId userName b).1 =
        (if (attempt b.fails (sessionWrites string token userId userName) b.localStorage).1 then .ok ()
          else .error (.error (text "Unable to save login session in this browser."))) ∧
      (saveAuthSession string token userId userName b).2.localStorage =
        (attempt b.fails (sessionWrites string token userId userName) b.localStorage).2 := by
  obtain ⟨hresult, hstorage⟩ := forM_write_apply (sessionWrites string token userId userName) b
  rw [← hstorage, saveAuthSession, writeAuthSession_eq, Script.tryCatch_apply]
  generalize forM (sessionWrites string token userId userName) write b = r at hresult ⊢
  obtain ⟨result, b'⟩ := r
  cases hdone : (attempt b.fails (sessionWrites string token userId userName) b.localStorage).1 with
  | true =>
    have hok : result = .ok () := by simpa [hdone] using hresult
    subst hok
    exact ⟨rfl, rfl⟩
  | false =>
    have herror : result = .error .storage := by simpa [hdone] using hresult
    subst herror
    exact ⟨rfl, rfl⟩

end Save

theorem getAuthToken_apply (b : Browser) :
    (getAuthToken b).1 = .ok (if b.fails 0 then none else b.localStorage tokenStorageKey) := by
  cases hwindow : b.window with
  | false => simp [getAuthToken, Browser.fails, hwindow]
  | true => cases hfails : b.fails 0 <;> simp [getAuthToken, hwindow, hfails, getItem]

theorem getAuthUserName_apply (b : Browser) :
    (getAuthUserName b).1 =
      .ok (if b.fails 0 then none else normalizeUserName (b.localStorage userNameStorageKey)) := by
  cases hwindow : b.window with
  | false => simp [getAuthUserName, Browser.fails, hwindow]
  | true =>
    cases hfails : b.fails 0 with
    | true => simp [getAuthUserName, hwindow, hfails, getItem]
    | false =>
      cases hname : normalizeUserName (b.localStorage userNameStorageKey) with
      | none =>
        -- the placeholder is removed, or stays; nothing is reported in either case
        cases hremove : (b.accessed b.localStorage).fails 0 <;>
          simp [getAuthUserName, hwindow, hfails, getItem, hname, truthy, removeItem, hremove]
      | some name =>
        obtain ⟨htruthy, -, -⟩ := normalizeUserName_eq_some hname
        simp [getAuthUserName, hwindow, hfails, getItem, hname, htruthy]

/-- What the getters report, unless their own read throws. -/
def Browser.Reports (b : Browser) (token userName : Option Text) : Prop :=
  (getAuthToken b).1 = .ok (if b.fails 0 then none else token) ∧
    (getAuthUserName b).1 = .ok (if b.fails 0 then none else userName)

theorem Browser.reports (b : Browser) :
    b.Reports (b.localStorage tokenStorageKey) (normalizeUserName (b.localStorage userNameStorageKey)) :=
  ⟨getAuthToken_apply b, getAuthUserName_apply b⟩

def sessionKeys : List Text := [tokenStorageKey, userIdStorageKey, userNameStorageKey]

/-- A save that throws leaves the session as it was, and one that returns has replaced it. -/
def AllOrNothing {Number : Type} (string : Number → Text) (token : Text) (userId : Number)
    (userName : Option Text) (b : Browser) : Prop :=
  match saveAuthSession string token userId userName b with
  | (.error _, b') =>
    (∀ key ∈ sessionKeys, b'.localStorage key = b.localStorage key) ∧
      b'.Reports (b.localStorage tokenStorageKey) (normalizeUserName (b.localStorage userNameStorageKey))
  | (.ok _, b') => b'.Reports (some token) (normalizeUserName userName)

section Save

variable {Number : Type} (string : Number → Text) (token : Text) (userId : Number)
  (userName : Option Text) (b : Browser)

/-- **All or nothing.** The session is replaced as a whole or not at all just where the
values written before the access that throws, if one does, were stored already. -/
theorem save_all_or_nothing_iff : AllOrNothing string token userId userName b ↔
    Idle b.fails (sessionWrites string token userId userName) b.localStorage := by
  have hkeys := sessionWrites_nodup string token userId userName
  obtain ⟨hresult, hstorage⟩ := saveAuthSession_apply string token userId userName b
  rw [← attempt_undone_iff hkeys, AllOrNothing]
  generalize saveAuthSession string token userId userName b = r at hresult hstorage ⊢
  obtain ⟨result, b'⟩ := r
  cases hdone : (attempt b.fails (sessionWrites string token userId userName) b.localStorage).1 with
  | true =>
    have hok : result = .ok () := by simpa [hdone] using hresult
    subst hok
    have hmem {w : Text × Option Text} (hw : w ∈ sessionWrites string token userId userName) :
        b'.localStorage w.1 = w.2 := by
      rw [hstorage, attempt_done hdone]
      exact assignAll_of_mem hkeys hw
    have htoken : b'.localStorage tokenStorageKey = some token :=
      hmem (w := (tokenStorageKey, some token)) (by simp [sessionWrites])
    have hname : b'.localStorage userNameStorageKey = normalizeUserName userName :=
      hmem (w := (userNameStorageKey, normalizeUserName userName)) (by simp [sessionWrites])
    have hreports := b'.reports
    rw [htoken, hname, normalizeUserName_idempotent] at hreports
    simpa using hreports
  | false =>
    have herror : result = .error (.error (text "Unable to save login session in this browser.")) := by
      simpa [hdone] using hresult
    subst herror
    constructor
    · rintro ⟨h, -⟩ _
      rw [hstorage, attempt_eq] at h
      rw [attempt_eq]
      refine assignAll_eq_self_of_keys ?_ h
      exact List.map_subset _ (List.take_subset ..)
    · intro h
      have hsame : b'.localStorage = b.localStorage := hstorage.trans (h rfl)
      have hreports := b'.reports
      rw [hsame] at hreports
      exact ⟨fun key _ => congrFun hsame key, hreports⟩

end Save

/-- A browser with a saved session, in which the second access throws. -/
def signedIn : Browser where
  window := true
  localStorage := assignAll (fun _ => none) [(tokenStorageKey, some (text "old")),
    (userIdStorageKey, some (text "3")), (userNameStorageKey, some (text "Bob"))]
  throws n := n == 1

/-- The save throws, with the new token stored beside the old name. -/
theorem second_write_mixes :
    ¬ AllOrNothing (fun n : ℕ => text (toString n)) (text "new") 7 (some (text "Ann")) signedIn := by
  rintro ⟨hkeys, -⟩
  have htoken := hkeys tokenStorageKey List.mem_cons_self
  exact absurd htoken (by decide +kernel)

end Frontend
end ResourceServer
