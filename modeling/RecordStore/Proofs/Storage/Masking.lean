import RecordStore.Proofs.Text.Splitting
import RecordStore.Storage.Address

/-!
# Addresses without their passwords

An address is shown with three stars in the place of its password.  What is shown is an address itself,
and it stands for the same storage (`masked_address_is_parsed`): it is split at the same places, because
neither the user nor the stars contain the characters at which addresses are split.
-/

namespace RecordStore

namespace Address

variable {text scheme rest credentials location user password : String} {address : Address}

/-! ## Parts of addresses -/

theorem toList_at : "@".toList = ['@'] := rfl

theorem toList_colon : ":".toList = [':'] := rfl

theorem toList_schemeEnd : "://".toList = ':' :: ['/', '/'] := rfl

theorem splitCredentials_eq_some_iff :
    splitCredentials rest = (some credentials, location) ↔
      rest = credentials ++ "@" ++ location ∧ '@' ∉ credentials.toList := by
  rw [← splitFirst?_char_eq_some_iff toList_at]
  unfold splitCredentials
  cases splitFirst? "@" rest with
  | none => simp
  | some parts => simp [Prod.ext_iff]

theorem splitScheme_eq_some_iff :
    splitFirst? "://" text = some (scheme, rest) ↔
      text = scheme ++ "://" ++ rest ∧ ¬ "://".toList <:+: scheme.toList :=
  splitFirst?_eq_some_iff toList_schemeEnd (by decide)

/-! ## Users -/

/-- The user ends where the password begins. -/
theorem userOf_append (user password : String) :
    userOf (user ++ ":" ++ password) = userOf user := by
  unfold userOf
  cases hsplit : splitFirst? ":" user with
  | none =>
      have hnot := (splitFirst?_char_eq_none_iff toList_colon).1 hsplit
      rw [(splitFirst?_char_eq_some_iff toList_colon).2 ⟨rfl, hnot⟩]
  | some parts =>
      obtain ⟨rfl, hnot⟩ := (splitFirst?_char_eq_some_iff toList_colon).1 hsplit
      have hlonger : splitFirst? ":" (parts.1 ++ ":" ++ parts.2 ++ ":" ++ password) =
          some (parts.1, parts.2 ++ ":" ++ password) := by
        refine (splitFirst?_char_eq_some_iff toList_colon).2 ⟨?_, hnot⟩
        simp only [String.append_assoc]
      rw [hlonger]

theorem userOf_userOf (credentials : String) : userOf (userOf credentials) = userOf credentials := by
  cases hsplit : splitFirst? ":" credentials with
  | none =>
      have huser : userOf credentials = credentials := by
        unfold userOf
        rw [hsplit]
      rw [huser, huser]
  | some parts =>
      obtain ⟨rfl, hnot⟩ := (splitFirst?_char_eq_some_iff toList_colon).1 hsplit
      have huser : userOf parts.1 = parts.1 := by
        unfold userOf
        rw [(splitFirst?_char_eq_none_iff toList_colon).2 hnot]
      rw [userOf_append, huser, huser]

theorem userOf_subset (credentials : String) : (userOf credentials).toList ⊆ credentials.toList := by
  unfold userOf
  cases hsplit : splitFirst? ":" credentials with
  | none => exact List.Subset.refl _
  | some parts =>
      obtain ⟨rfl, -⟩ := (splitFirst?_char_eq_some_iff toList_colon).1 hsplit
      intro c hc
      simp only [String.toList_append, List.mem_append]
      exact Or.inl (Or.inl hc)

/-! ## Parsing -/

/-- No storage in memory has credentials. -/
theorem isMemory_eq_false (h : '@' ∈ address.raw.toList) : address.isMemory = false := by
  refine Bool.eq_false_iff.2 fun hmemory => ?_
  have hmem : address.raw ∈ memoryAddresses := List.contains_iff_mem.1 hmemory
  have hplain : ∀ raw ∈ memoryAddresses, '@' ∉ raw.toList := by decide
  exact hplain _ hmem h

/-- A text is the address of its parts when they are those of a storage in memory or on disk. -/
theorem parse_of_parts (hscheme : splitFirst? "://" address.raw = some (address.scheme, rest))
    (hne : address.scheme ≠ "")
    (hrest : splitCredentials rest = (address.credentials, address.location)) :
    parse address.raw =
      if address.isMemory = true ∨ address.scheme = diskScheme then .ok address
      else .error (.invalidAddress address.raw .unsupportedScheme) := by
  unfold parse
  have hnamed : address.scheme.isEmpty = false := by simpa using hne
  simp only [hscheme, hnamed, hrest]
  simp

/-- An address that was parsed is that of a storage in memory or on disk, with the parts of its text. -/
theorem parts_of_parse (h : parse text = .ok address) : address.raw = text ∧
    (address.isMemory = true ∨ address.scheme = diskScheme) ∧
    ∃ rest, splitFirst? "://" text = some (address.scheme, rest) ∧
      splitCredentials rest = (address.credentials, address.location) := by
  cases hsplit : splitFirst? "://" text with
  | none =>
      unfold parse at h
      rw [hsplit] at h
      cases h
  | some parts =>
      obtain ⟨scheme, rest⟩ := parts
      by_cases hne : scheme = ""
      · unfold parse at h
        simp [hsplit, hne] at h
      · obtain ⟨parsed, rfl, rfl, hrest⟩ : ∃ parsed : Address, parsed.raw = text ∧
            parsed.scheme = scheme ∧ splitCredentials rest = (parsed.credentials, parsed.location) :=
          ⟨{ raw := text, scheme, credentials := _, location := _ }, rfl, rfl, rfl⟩
        rw [parse_of_parts hsplit hne hrest] at h
        by_cases hknown : parsed.isMemory = true ∨ parsed.scheme = diskScheme
        · rw [if_pos hknown] at h
          cases h
          exact ⟨rfl, hknown, rest, rfl, hrest⟩
        · rw [if_neg hknown] at h
          cases h

/-! ## What is shown -/

/-- The address of a storage on disk with credentials. -/
def onDisk (credentials location : String) : Address where
  raw := diskScheme ++ "://" ++ (credentials ++ "@" ++ location)
  scheme := diskScheme
  credentials := some credentials
  location

theorem parse_onDisk (h : '@' ∉ credentials.toList) :
    parse (onDisk credentials location).raw = .ok (onDisk credentials location) := by
  have hscheme : splitFirst? "://" (onDisk credentials location).raw =
      some (diskScheme, credentials ++ "@" ++ location) :=
    splitScheme_eq_some_iff.2 ⟨rfl, by decide⟩
  rw [parse_of_parts hscheme (by decide : diskScheme ≠ "") (splitCredentials_eq_some_iff.2 ⟨rfl, h⟩)]
  exact if_pos (Or.inr rfl)

/-- Credentials without the password, with stars in its place. -/
def maskedCredentials (credentials : String) : String :=
  userOf credentials ++ ":" ++ "***"

theorem maskedCredentials_maskedCredentials (credentials : String) :
    maskedCredentials (maskedCredentials credentials) = maskedCredentials credentials :=
  calc maskedCredentials (maskedCredentials credentials)
      = userOf (userOf credentials ++ ":" ++ "***") ++ ":" ++ "***" := rfl
    _ = userOf (userOf credentials) ++ ":" ++ "***" := by rw [userOf_append]
    _ = maskedCredentials credentials := by rw [userOf_userOf, maskedCredentials]

/-- An address with credentials is one on disk, and is shown as the one with its password masked. -/
theorem toText_of_credentials (h : parse text = .ok address)
    (hcredentials : address.credentials = some credentials) :
    '@' ∉ credentials.toList ∧ address.isMemory = false ∧ address.scheme = diskScheme ∧
      address.toText = (onDisk (maskedCredentials credentials) address.location).raw := by
  obtain ⟨rfl, hknown, rest, hsplit, hrest⟩ := parts_of_parse h
  rw [hcredentials] at hrest
  obtain ⟨rfl, hat⟩ := splitCredentials_eq_some_iff.1 hrest
  obtain ⟨htext, -⟩ := splitScheme_eq_some_iff.1 hsplit
  have hmemory : address.isMemory = false := by
    refine isMemory_eq_false ?_
    rw [htext]
    simp
  have hdisk : address.scheme = diskScheme := hknown.resolve_left (by simp [hmemory])
  refine ⟨hat, hmemory, hdisk, ?_⟩
  unfold toText onDisk maskedCredentials
  rw [hcredentials, hdisk]
  simp only [String.append_assoc]
  rfl

end Address

open Address

/-- The text that is shown of an address is an address again.  It has the same scheme, the same location
and with it the same settings, is in memory exactly when the first one is and has credentials exactly
when the first one has, and it is shown as the same text. -/
theorem masked_address_is_parsed (text : String) (address : Address)
    (h : Address.parse text = .ok address) :
    ∃ shown, Address.parse address.toText = .ok shown ∧
      shown.scheme = address.scheme ∧ shown.location = address.location ∧
      shown.isMemory = address.isMemory ∧ Settings.ofAddress shown = Settings.ofAddress address ∧
      shown.credentials.isSome = address.credentials.isSome ∧
      shown.toText = address.toText := by
  cases hcredentials : address.credentials with
  | none =>
      -- Without credentials the text itself is shown.
      have hshown : address.toText = text := by
        unfold toText
        rw [hcredentials]
        exact (parts_of_parse h).1
      rw [hshown]
      exact ⟨address, h, rfl, rfl, rfl, rfl, by rw [hcredentials], hshown⟩
  | some credentials =>
      obtain ⟨hat, hmemory, hdisk, hshown⟩ := toText_of_credentials h hcredentials
      have hmasked : '@' ∉ (maskedCredentials credentials).toList := by
        unfold maskedCredentials
        simp only [String.toList_append, List.mem_append]
        rintro ((huser | hcolon) | hstars)
        · exact hat (userOf_subset credentials huser)
        · exact absurd hcolon (by decide)
        · exact absurd hstars (by decide)
      let shown := onDisk (maskedCredentials credentials) address.location
      have hparse : Address.parse shown.raw = .ok shown := parse_onDisk hmasked
      obtain ⟨-, hmemory', -, hshown'⟩ := toText_of_credentials hparse rfl
      rw [hshown]
      refine ⟨shown, hparse, hdisk.symm, rfl, hmemory'.trans hmemory.symm, ?_, rfl, ?_⟩
      · unfold Settings.ofAddress
        rw [hmemory, hmemory']
        rfl
      · rw [hshown', maskedCredentials_maskedCredentials]
        rfl

/-- A user, a password and a location with the characters at which addresses are split. -/
theorem masked_address_is_parsed_of_user :
    let text := "sled://me:p://q:r@/data@x:y"
    let address : Address := {
      raw := text, scheme := "sled", credentials := some "me:p://q:r", location := "/data@x:y" }
    Address.parse text = .ok address ∧ address.toText = "sled://me:***@/data@x:y" ∧
      ∃ shown, Address.parse address.toText = .ok shown ∧ shown.location = "/data@x:y" ∧
        shown.toText = "sled://me:***@/data@x:y" := by
  intro text address
  have hparse : Address.parse text = .ok address := by decide +kernel
  have hshown : address.toText = "sled://me:***@/data@x:y" := by decide +kernel
  obtain ⟨shown, hagain, -, hlocation, -, -, -, htext⟩ := masked_address_is_parsed text address hparse
  exact ⟨hparse, hshown, shown, hagain, hlocation, htext.trans hshown⟩

end RecordStore
