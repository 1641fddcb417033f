import Eventify.Auth.Accounts

/-!
# Legacy hashes

What `verifyLegacyScrypt` accepts. It takes the first three fields of the
stored text, and `Buffer.from` keeps as much of the third as it can decode.
-/

namespace Eventify

/-- The fields `scrypt`, salt and digest, the digest written in full bytes. -/
structure WellFormedScrypt (stored : String) (salt hex : List Char) : Prop where
  fields : stored.toList.splitOn '$' = ["scrypt".toList, salt, hex]
  salt_ne_nil : salt ≠ []
  hex_ne_nil : hex ≠ []
  even : hex.length % 2 = 0
  digits : ∀ c ∈ hex, (hexDigit c).isSome = true

def WellFormedHash (stored : String) : Prop := ∃ salt hex, WellFormedScrypt stored salt hex

/-- The stored text is well formed, and its bytes are the password's under its salt. -/
def AuthenticatesAs (env : PasswordEnv) (password stored : String) : Prop :=
  ∃ salt hex, WellFormedScrypt stored salt hex ∧
    env.scrypt password (String.ofList salt) (hex.length / 2) = .ok (bufferFromHex hex)

/-- Nothing is left to compare: the salt is missing or empty, or the digest
does not start with two hex digits. -/
def Unreadable (stored : String) : Prop :=
  ∀ salt hex rest, stored.toList.splitOn '$' = "scrypt".toList :: salt :: hex :: rest →
    salt = [] ∨ bufferFromHex hex = []

/-- `scrypt` returns as many bytes as it is asked for. -/
def PasswordEnv.Sized (env : PasswordEnv) : Prop :=
  ∀ password salt length bytes, env.scrypt password salt length = .ok bytes →
    bytes.length = length

/-- A `scrypt` whose output for every password starts with the same bytes. -/
def digestsTo (digest : List UInt8) : PasswordEnv :=
  { clearPasswords with
    scrypt := fun _ _ length => .ok ((digest ++ List.replicate length 0).take length) }

theorem digestsTo_sized (digest : List UInt8) : (digestsTo digest).Sized := by
  intro password salt length bytes h
  obtain rfl := Except.ok.inj h
  simp

/-! ### The decoder -/

theorem bufferFromHex_pair {high low : Char} {x y : ℕ} (hhigh : hexDigit high = some x)
    (hlow : hexDigit low = some y) (rest : List Char) :
    bufferFromHex (high :: low :: rest) = UInt8.ofNat (16 * x + y) :: bufferFromHex rest := by
  simp [bufferFromHex, hhigh, hlow]

/-- Full bytes of hex digits are decoded to the end. -/
theorem bufferFromHex_length {hex : List Char} (heven : hex.length % 2 = 0)
    (hdigits : ∀ c ∈ hex, (hexDigit c).isSome = true) :
    (bufferFromHex hex).length = hex.length / 2 := by
  induction hex using bufferFromHex.induct with
  | case1 high low rest x y hlow hhigh ih =>
      rw [bufferFromHex_pair hhigh hlow, List.length_cons, ih]
      · simp only [List.length_cons]
        omega
      · simp only [List.length_cons] at heven
        omega
      · intro c hc
        exact hdigits c (by simp [hc])
  | case2 high low rest hbad =>
      obtain ⟨x, hx⟩ := Option.isSome_iff_exists.mp (hdigits high (by simp))
      obtain ⟨y, hy⟩ := Option.isSome_iff_exists.mp (hdigits low (by simp))
      exact (hbad x y hx hy).elim
  | case3 hex hshort =>
      cases hex with
      | nil => rfl
      | cons high tail =>
          cases tail with
          | nil => simp at heven
          | cons low tail => exact (hshort high low tail rfl).elim

theorem bufferFromHex_ne_nil {hex : List Char} (hne : hex ≠ []) (heven : hex.length % 2 = 0)
    (hdigits : ∀ c ∈ hex, (hexDigit c).isSome = true) : bufferFromHex hex ≠ [] := by
  have hpos := List.length_pos_iff.mpr hne
  rw [← List.length_pos_iff, bufferFromHex_length heven hdigits]
  omega

/-! ### The fields -/

theorem splitOn_of_scrypt {stored : String} (h : "scrypt$".toList.isPrefixOf stored.toList = true) :
    ∃ fields, fields ≠ [] ∧ stored.toList.splitOn '$' = "scrypt".toList :: fields := by
  obtain ⟨rest, hrest⟩ := List.isPrefixOf_iff_prefix.mp h
  refine ⟨rest.splitOn '$', List.splitOn_ne_nil _ _, ?_⟩
  have hscrypt : '$' ∉ "scrypt".toList := by decide
  rw [← List.splitOn_append_cons_self_of_not_mem hscrypt, ← hrest]
  rfl

section Verify

variable {env : PasswordEnv} {password stored : String} {salt hex : List Char}
  {rest : List (List Char)}

theorem verifyPassword_scrypt (h : "scrypt$".toList.isPrefixOf stored.toList = true) :
    env.verifyPassword password stored =
      match env.verifyLegacyScrypt password stored with
      | .ok valid => valid
      | .error _ => false := by
  obtain ⟨tail, htail⟩ := List.isPrefixOf_iff_prefix.mp h
  have hargon : "$argon2".toList.isPrefixOf stored.toList = false := by
    rw [← htail]
    rfl
  simp only [PasswordEnv.verifyPassword, hargon, h, if_true]
  rfl

/-- Three fields and perhaps more: the first bytes of the digest are compared. -/
theorem verifyLegacyScrypt_fields
    (hfields : stored.toList.splitOn '$' = "scrypt".toList :: salt :: hex :: rest)
    (hsalt : salt ≠ []) (hbytes : bufferFromHex hex ≠ []) :
    env.verifyLegacyScrypt password stored =
      match env.scrypt password (String.ofList salt) (bufferFromHex hex).length with
      | .error failure => .error failure
      | .ok actual =>
          .ok ((bufferFromHex hex).length == actual.length && bufferFromHex hex == actual) := by
  have hhex : hex ≠ [] := by
    rintro rfl
    exact hbytes rfl
  have hlength : (bufferFromHex hex).length ≠ 0 := by simpa using hbytes
  unfold PasswordEnv.verifyLegacyScrypt
  rw [hfields]
  dsimp only
  exact (if_neg (by simp [hsalt, hhex])).trans (if_neg hlength)

theorem verifyLegacyScrypt_true_iff
    (hfields : stored.toList.splitOn '$' = "scrypt".toList :: salt :: hex :: rest)
    (hsalt : salt ≠ []) (hbytes : bufferFromHex hex ≠ [])
    (h : "scrypt$".toList.isPrefixOf stored.toList = true) :
    env.verifyPassword password stored = true ↔
      env.scrypt password (String.ofList salt) (bufferFromHex hex).length =
        .ok (bufferFromHex hex) := by
  rw [verifyPassword_scrypt h, verifyLegacyScrypt_fields hfields hsalt hbytes]
  cases hscrypt : env.scrypt password (String.ofList salt) (bufferFromHex hex).length with
  | error failure => simp
  | ok actual =>
      simp only [Bool.and_eq_true, beq_iff_eq, Except.ok.injEq]
      constructor
      · rintro ⟨-, hsame⟩
        exact hsame.symm
      · rintro rfl
        exact ⟨rfl, rfl⟩

/-- A salt or digest that cannot be read is no password's. -/
theorem verifyPassword_unreadable (h : "scrypt$".toList.isPrefixOf stored.toList = true)
    (hunread : Unreadable stored) : env.verifyPassword password stored = false := by
  rw [verifyPassword_scrypt h]
  obtain ⟨fields, -, hfields⟩ := splitOn_of_scrypt h
  match fields, hfields with
  | [], hfields => simp [PasswordEnv.verifyLegacyScrypt, hfields]
  | [salt], hfields => simp [PasswordEnv.verifyLegacyScrypt, hfields]
  | salt :: hex :: rest, hfields =>
      rcases hunread salt hex rest hfields with hsalt | hhex
      · simp [PasswordEnv.verifyLegacyScrypt, hfields, hsalt]
      · simp [PasswordEnv.verifyLegacyScrypt, hfields, hhex]

theorem WellFormedScrypt.verify_iff (hform : WellFormedScrypt stored salt hex)
    (h : "scrypt$".toList.isPrefixOf stored.toList = true) :
    env.verifyPassword password stored = true ↔
      env.scrypt password (String.ofList salt) (hex.length / 2) = .ok (bufferFromHex hex) := by
  have hbytes := bufferFromHex_ne_nil hform.hex_ne_nil hform.even hform.digits
  rw [verifyLegacyScrypt_true_iff hform.fields hform.salt_ne_nil hbytes h,
    bufferFromHex_length hform.even hform.digits]

end Verify

/-- With every `scrypt`, only a well-formed text of the password's own bytes
authenticates, exactly when the text is well formed or cannot be read at all. -/
theorem legacy_hash_sound_iff (password stored : String)
    (h : "scrypt$".toList.isPrefixOf stored.toList = true) :
    (∀ env : PasswordEnv, env.Sized → env.verifyPassword password stored = true →
        AuthenticatesAs env password stored) ↔
      WellFormedHash stored ∨ Unreadable stored := by
  constructor
  · intro hsound
    by_contra! hbad
    obtain ⟨hform, hread⟩ := hbad
    simp only [Unreadable, not_forall, not_or] at hread
    obtain ⟨salt, hex, rest, hfields, hsalt, hbytes⟩ := hread
    have hverify : (digestsTo (bufferFromHex hex)).verifyPassword password stored = true := by
      rw [verifyLegacyScrypt_true_iff hfields hsalt hbytes h]
      simp [digestsTo]
    obtain ⟨salt', hex', hstrict, -⟩ :=
      hsound _ (digestsTo_sized (bufferFromHex hex)) hverify
    exact hform ⟨salt', hex', hstrict⟩
  · rintro (⟨salt, hex, hform⟩ | hunread) env - hverify
    · exact ⟨salt, hex, hform, (hform.verify_iff h).mp hverify⟩
    · rw [verifyPassword_unreadable h hunread] at hverify
      cases hverify

theorem wellFormed_salted : WellFormedScrypt "scrypt$salt$61" "salt".toList "61".toList where
  fields := by decide
  salt_ne_nil := by decide
  hex_ne_nil := by decide
  even := by decide
  digits := List.all_eq_true.mp (by decide)

theorem legacy_hash_sound_iff_salted : AuthenticatesAs (digestsTo [97]) "guess" "scrypt$salt$61" :=
  (legacy_hash_sound_iff "guess" "scrypt$salt$61" (by decide)).mpr (.inl ⟨_, _, wellFormed_salted⟩)
    (digestsTo [97]) (digestsTo_sized [97]) (by decide)

/-- One good byte, and junk behind it. -/
theorem legacy_hash_accepts_junk :
    ¬ ∀ (env : PasswordEnv) (password stored : String), env.Sized →
      "scrypt$".toList.isPrefixOf stored.toList = true →
      env.verifyPassword password stored = true → AuthenticatesAs env password stored := by
  intro hsound
  obtain ⟨salt, hex, hform, -⟩ := hsound (digestsTo [97]) "guess" "scrypt$salt$61zz"
    (digestsTo_sized [97]) (by decide) (by decide)
  have hsplit : "scrypt$salt$61zz".toList.splitOn '$' =
      ["scrypt".toList, "salt".toList, "61zz".toList] := by decide
  obtain ⟨-, rfl⟩ : "salt".toList = salt ∧ "61zz".toList = hex := by
    simpa using hsplit.symm.trans hform.fields
  exact absurd (hform.digits 'z' (by decide)) (by decide)

end Eventify
