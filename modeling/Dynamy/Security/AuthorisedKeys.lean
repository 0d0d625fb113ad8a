import Dynamy.Security.KeyBlobs
import Dynamy.Security.Login

/-!
# Dynamy.Security.AuthorisedKeys — a lone key against the list of authorised lines

The key loop decodes a line when it reaches it and stops at the first match, so a line that does not decode
matters by its position: before the first match the exception ends the login, behind it nobody looks.
`ReadsToMatch` says that every line the loop reaches holds a key; it is what makes the answer depend only on which
lines decode to what.
-/

namespace Dynamy.Security

open Dynamy.Java Dynamy.Lib

variable {PublicKey : Type}

/-- The line holds a key. -/
def Decodes (kp : KeyProvider PublicKey) (line : String) : Prop := ∃ k, decoded kp line = .ok k

instance (kp : KeyProvider PublicKey) : DecidablePred (Decodes kp) := fun line =>
  match h : decoded kp line with
  | .ok k => .isTrue ⟨k, h⟩
  | .error _ => .isFalse fun ⟨_, h'⟩ => by rw [h] at h'; cases h'

/-- Some line of the list decodes to the key. -/
def Listed (kp : KeyProvider PublicKey) (key : PublicKey) (lines : List String) : Prop :=
  ∃ line ∈ lines, decoded kp line = .ok key

section Listed

variable {kp : KeyProvider PublicKey} {key : PublicKey}

theorem listed_cons {line : String} {rest : List String} :
    Listed kp key (line :: rest) ↔ decoded kp line = .ok key ∨ Listed kp key rest := by
  simp [Listed]

/-- Whether the key is listed is a question about the lines that decode, in any order. -/
theorem listed_congr {lines lines' : List String}
    (h : (lines.filter (Decodes kp ·)).Perm (lines'.filter (Decodes kp ·))) :
    Listed kp key lines ↔ Listed kp key lines' := by
  have hfilter : ∀ ls, Listed kp key ls ↔ Listed kp key (ls.filter (Decodes kp ·)) := by
    intro ls
    constructor
    · rintro ⟨line, hline, hd⟩
      exact ⟨line, List.mem_filter.mpr ⟨hline, by simpa using ⟨key, hd⟩⟩, hd⟩
    · rintro ⟨line, hline, hd⟩
      exact ⟨line, (List.mem_filter.mp hline).1, hd⟩
  rw [hfilter lines, hfilter lines']
  unfold Listed
  simp only [h.mem_iff]

end Listed

section Scan

variable [DecidableEq PublicKey]

instance (kp : KeyProvider PublicKey) (key : PublicKey) (lines : List String) : Decidable (Listed kp key lines) :=
  inferInstanceAs (Decidable (∃ line ∈ lines, decoded kp line = .ok key))

/-- Every line before the first one that decodes to the key holds a key; every line, if none decodes to it. -/
def ReadsToMatch (kp : KeyProvider PublicKey) (key : PublicKey) (lines : List String) : Prop :=
  ∀ line ∈ lines.takeWhile (fun line => decoded kp line ≠ .ok key), Decodes kp line

variable {kp : KeyProvider PublicKey} {key : PublicKey}

theorem readsToMatch_of_match {line : String} (rest : List String) (h : decoded kp line = .ok key) :
    ReadsToMatch kp key (line :: rest) := by
  simp [ReadsToMatch, h]

theorem readsToMatch_cons {line : String} {rest : List String} (h : decoded kp line ≠ .ok key) :
    ReadsToMatch kp key (line :: rest) ↔ Decodes kp line ∧ ReadsToMatch kp key rest := by
  simp [ReadsToMatch, h]

/-- The loop answers that the key is listed exactly when it can read up to a match. -/
theorem keysMatchLoop_eq_true {lines : List String} {d : Decoder} :
    ((keysMatchLoop kp key lines).run d).result = .ok true ↔
      Listed kp key lines ∧ ReadsToMatch kp key lines := by
  induction lines generalizing d with
  | nil => simp [keysMatchLoop, Listed]
  | cons line rest ih =>
    rw [keysMatchLoop_cons]
    cases hd : decoded kp line with
    | error e =>
      have hnd : ¬ Decodes kp line := fun ⟨k, hk⟩ => by rw [hd] at hk; cases hk
      rw [readsToMatch_cons (by simp [hd])]
      simp [hnd]
    | ok k =>
      by_cases hk : key = k
      · subst hk
        simp only [if_true, listed_cons, hd, true_or, true_and, true_iff]
        exact readsToMatch_of_match rest hd
      · have hne : decoded kp line ≠ .ok key := by
          rw [hd]
          intro h
          exact hk (Except.ok.inj h).symm
        have hdec : Decodes kp line := ⟨k, hd⟩
        simp only [if_neg hk]
        rw [ih, listed_cons, readsToMatch_cons hne]
        simp [hne, hdec]

/-- It answers that the key is not listed exactly when it can read every line and none matches. -/
theorem keysMatchLoop_eq_false {lines : List String} {d : Decoder} :
    ((keysMatchLoop kp key lines).run d).result = .ok false ↔
      ¬ Listed kp key lines ∧ ReadsToMatch kp key lines := by
  rw [keysMatchLoop_false]
  constructor
  · intro h
    refine ⟨?_, ?_⟩
    · rintro ⟨line, hline, hd⟩
      obtain ⟨k, hk, hne⟩ := h line hline
      rw [hd] at hk
      exact hne (Except.ok.inj hk).symm
    · intro line hline
      obtain ⟨k, hk, -⟩ := h line (List.takeWhile_subset _ hline)
      exact ⟨k, hk⟩
  · rintro ⟨hno, hreads⟩ line hline
    have hall : lines.takeWhile (fun line => decoded kp line ≠ .ok key) = lines := by
      rw [List.takeWhile_eq_self_iff]
      intro l hl
      simpa using fun hd => hno ⟨l, hl, hd⟩
    rw [ReadsToMatch, hall] at hreads
    obtain ⟨k, hk⟩ := hreads line hline
    exact ⟨k, hk, fun hkey => hno ⟨line, hline, hkey ▸ hk⟩⟩

end Scan

/-! ### A lone key -/

section LoneKey

variable [DecidableEq PublicKey] {kp : KeyProvider PublicKey} {svc : PasswordService}

/-- What the matcher answers to a `DynamyAuthenticationToken` that carries only `key`, for a user with the password
hash `hash` and the authorised lines `lines`. -/
def matchLoneKey (kp : KeyProvider PublicKey) (svc : PasswordService) (username principal : Option String)
    (realmName hash : String) (key : PublicKey) (lines : List String) : Except Throwable Bool :=
  doCredentialsMatch kp svc (.dynamy username none (some key)) (some ⟨principal, (some hash, some lines), realmName⟩)

/-- With a non-empty hash the password service says no, so the key loop decides. -/
theorem matchLoneKey_eq (hsvc : svc.Documented) {hash : String} (hne : hash ≠ "") (username principal : Option String)
    (realmName : String) (key : PublicKey) (lines : List String) :
    matchLoneKey kp svc username principal realmName hash key lines =
      ((keysMatchLoop kp key lines).run {}).result := by
  have hno : svc.passwordsMatch none (some hash) = false :=
    hsvc.submitted_empty none (some hash) (by simpa using hne) nullOrEmpty_none
  have hk : keysMatch kp (some key) (some lines) = ((keysMatchLoop kp key lines).run {}).result := rfl
  simp only [matchLoneKey, doCredentialsMatch, matchSimpleAuthenticationInfo, AuthenticationToken.getCredentials,
    tokenParts, infoParts_some]
  rw [hk]
  cases ((keysMatchLoop kp key lines).run {}).result with
  | error e => rfl
  | ok found =>
    cases found with
    | true => rfl
    | false => simp [hno, bind, Except.bind, pure, Except.pure]

variable (kp) in
theorem matchLoneKey_true (hsvc : svc.Documented) {hash : String} (hne : hash ≠ "")
    (username principal : Option String) (realmName : String) (key : PublicKey) (lines : List String) :
    matchLoneKey kp svc username principal realmName hash key lines = .ok true ↔
      Listed kp key lines ∧ ReadsToMatch kp key lines := by
  rw [matchLoneKey_eq hsvc hne]
  exact keysMatchLoop_eq_true

/-- **A lone key is accepted if and only if it is listed** — exactly where no line that does not decode comes before
the first match.  The matcher returns that answer, instead of throwing, exactly where it can read up to a match, and
two lists with the same decodable lines are accepted alike exactly where they are alike in this. -/
theorem matchLoneKey_listed_iff (hsvc : svc.Documented) {hash : String} (hne : hash ≠ "")
    (username principal : Option String) (realmName : String) (key : PublicKey) (lines : List String) :
    ((matchLoneKey kp svc username principal realmName hash key lines = .ok true ↔ Listed kp key lines) ↔
      (Listed kp key lines → ReadsToMatch kp key lines)) ∧
    (matchLoneKey kp svc username principal realmName hash key lines = .ok (decide (Listed kp key lines)) ↔
      ReadsToMatch kp key lines) ∧
    ∀ lines', (lines.filter (Decodes kp ·)).Perm (lines'.filter (Decodes kp ·)) →
      ((matchLoneKey kp svc username principal realmName hash key lines = .ok true ↔
          matchLoneKey kp svc username principal realmName hash key lines' = .ok true) ↔
        ((Listed kp key lines → ReadsToMatch kp key lines) ↔
          (Listed kp key lines' → ReadsToMatch kp key lines'))) := by
  have htrue := matchLoneKey_true kp hsvc hne username principal realmName key
  refine ⟨?_, ?_, fun lines' hperm => ?_⟩
  · rw [htrue]
    tauto
  · by_cases hl : Listed kp key lines
    · simp only [hl, decide_true]
      rw [htrue]
      simp [hl]
    · simp only [hl, decide_false]
      rw [matchLoneKey_eq hsvc hne, keysMatchLoop_eq_false]
      simp [hl]
  · have hlisted : Listed kp key lines ↔ Listed kp key lines' := listed_congr hperm
    rw [htrue, htrue]
    tauto

end LoneKey

/-! ### A comment in front -/

/-- The RSA key of modulus 15 and exponent 3. -/
def adminKey : KeySpec := .rsa 15 3

/-- A comment and the line of the key. -/
def commentedLines : List String := ["# admin", "ssh-rsa AAAAB3NzaC1yc2EAAAABAwAAAAEP"]

theorem commentedLines_listed : Listed specKeys adminKey commentedLines :=
  ⟨"ssh-rsa AAAAB3NzaC1yc2EAAAABAwAAAAEP", by simp [commentedLines], rfl⟩

/-- What the matcher answers for a user with a hash and these lines. -/
def matchAdminKey (lines : List String) : Except Throwable Bool :=
  matchLoneKey specKeys plainService (some "admin") (some "admin") "dynamy" "hash" adminKey lines

theorem matchLoneKey_listed_iff_commented :
    ((matchAdminKey commentedLines = .ok true ↔ Listed specKeys adminKey commentedLines) ↔
      (Listed specKeys adminKey commentedLines → ReadsToMatch specKeys adminKey commentedLines)) ∧
    (matchAdminKey commentedLines = .ok (decide (Listed specKeys adminKey commentedLines)) ↔
      ReadsToMatch specKeys adminKey commentedLines) ∧
    ∀ lines', (commentedLines.filter (Decodes specKeys ·)).Perm (lines'.filter (Decodes specKeys ·)) →
      ((matchAdminKey commentedLines = .ok true ↔ matchAdminKey lines' = .ok true) ↔
        ((Listed specKeys adminKey commentedLines → ReadsToMatch specKeys adminKey commentedLines) ↔
          (Listed specKeys adminKey lines' → ReadsToMatch specKeys adminKey lines'))) :=
  matchLoneKey_listed_iff plainService_documented (by decide : "hash" ≠ "") (some "admin") (some "admin") "dynamy"
    adminKey commentedLines

/-- A comment in front of the line with the key keeps the key out. -/
theorem matchLoneKey_not_listed :
    ¬ ∀ (kp : KeyProvider KeySpec) (svc : PasswordService), svc.Documented → ∀ hash : String, hash ≠ "" →
      ∀ (username principal : Option String) (realmName : String) (key : KeySpec) (lines : List String),
        (matchLoneKey kp svc username principal realmName hash key lines = .ok true ↔ Listed kp key lines) := by
  intro h
  have hiff := h specKeys plainService plainService_documented "hash" (by decide) (some "admin") (some "admin")
    "dynamy" adminKey commentedLines
  have hthrows : matchLoneKey specKeys plainService (some "admin") (some "admin") "dynamy" "hash" adminKey
      commentedLines = .error ⟨.noSuchElement, none⟩ := rfl
  have htrue := hiff.mpr commentedLines_listed
  rw [hthrows] at htrue
  cases htrue

end Dynamy.Security
