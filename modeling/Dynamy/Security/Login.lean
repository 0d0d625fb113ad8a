import Dynamy.Security.DynamyRealm

/-!
# Dynamy.Security.Login — which accepted logins are right

Two questions about a token that `authenticate` accepts.  On one unchanging row (`authenticate_sound_iff`): did it
carry a listed key or a verifying non-empty password?  Under statements of other clients between the queries
(`login_window_iff`): was there a moment between the first and the last query at which accepting it was right?
Both fail in the same way: the matcher treats a missing hash like an empty one, for which the password service
accepts an absent password, so that a token with any key, or with nothing, gets in.
-/

namespace Dynamy.Security

open Dynamy.Java Dynamy.Lib

variable {PublicKey : Type}

/-! ### Right logins -/

/-- The token carries a key that one of the lines decodes to. -/
def CarriesListedKey (kp : KeyProvider PublicKey) (token : AuthenticationToken PublicKey) (lines : List String) :
    Prop := ∃ k, token.key = some k ∧ ∃ line ∈ lines, decoded kp line = .ok k

/-- The token carries a non-empty password that verifies against a non-empty stored hash. -/
def CarriesPassword (svc : PasswordService) (token : AuthenticationToken PublicKey) (stored : Option String) : Prop :=
  ¬ nullOrEmpty token.password ∧ ¬ nullOrEmpty stored ∧ svc.passwordsMatch token.password stored = true

/-- The login of `u` with `token` is right in the state `db`. -/
def Justified (kp : KeyProvider PublicKey) (svc : PasswordService) (db : Database) (u : UserRow)
    (token : AuthenticationToken PublicKey) : Prop :=
  CarriesListedKey kp token (db.keyLines u) ∨ CarriesPassword svc token u.password

/-- The token carries a non-empty password and nothing else. -/
def OnlyPassword (token : AuthenticationToken PublicKey) : Prop := token.key = none ∧ ¬ nullOrEmpty token.password

/-- The token carries a key and nothing else. -/
def OnlyKey (token : AuthenticationToken PublicKey) : Prop := token.key ≠ none ∧ token.password = none

variable {token : AuthenticationToken PublicKey}

theorem tokenParts_password_empty : nullOrEmpty (tokenParts token.getCredentials).1 ↔ ¬ OnlyPassword token := by
  rw [tokenParts_eq, OnlyPassword]
  cases token.key <;> simp

theorem tokenParts_key {k : PublicKey} (h : (tokenParts token.getCredentials).2 = some k) :
    token.key = some k ∧ token.password = none := by
  rw [tokenParts_eq] at h
  cases hp : token.password <;> simp_all

/-! ### The decision on given credentials -/

section Decision

variable [DecidableEq PublicKey] {kp : KeyProvider PublicKey} {svc : PasswordService} {lines : List String}

/-- Against a non-empty hash the matcher accepts only what is right. -/
theorem matches_of_hash (hsvc : svc.Documented) {stored : Option String} (hst : ¬ nullOrEmpty stored)
    (h : doCredentialsMatch kp svc token (some (infoOf token stored lines)) = .ok true) :
    CarriesListedKey kp token lines ∨ CarriesPassword svc token stored := by
  obtain ⟨hash, rfl⟩ : ∃ hash, stored = some hash := by
    cases stored with
    | none => exact absurd nullOrEmpty_none hst
    | some hash => exact ⟨hash, rfl⟩
  rcases doCredentialsMatch_true.mp h with hk | ⟨-, hpw⟩
  · obtain ⟨k, hk, line, hline, hdec⟩ := keysMatch_true hk
    exact .inl ⟨k, (tokenParts_key hk).1, line, hline, hdec⟩
  · right
    rw [infoOf, infoParts_some] at hpw
    have honly : OnlyPassword token := by
      by_contra hno
      have hfalse := hsvc.submitted_empty _ _ hst (tokenParts_password_empty.mpr hno)
      rw [hpw] at hfalse
      cases hfalse
    have hparts : (tokenParts token.getCredentials).1 = token.password := by
      rw [tokenParts_eq, honly.1]
      rfl
    rw [hparts] at hpw
    exact ⟨honly.2, hst, hpw⟩

/-- Against a missing hash the matcher accepts whatever is not a lone non-empty password. -/
theorem matches_of_null (hsvc : svc.Documented) :
    doCredentialsMatch kp svc token (some (infoOf token none lines)) = .ok true ↔ ¬ OnlyPassword token := by
  rw [doCredentialsMatch_true, infoOf, infoParts_none, keysMatch_nil, hsvc.saved_empty _ _ nullOrEmpty_none,
    tokenParts_password_empty]
  simp

/-- Against an empty hash it does the same, unless a key line stops it: by a match, or by not decoding. -/
theorem matches_of_empty (hsvc : svc.Documented) :
    doCredentialsMatch kp svc token (some (infoOf token (some "") lines)) = .ok true ↔
      keysMatch kp (tokenParts token.getCredentials).2 (some lines) = .ok true ∨
        keysMatch kp (tokenParts token.getCredentials).2 (some lines) = .ok false ∧ ¬ OnlyPassword token := by
  rw [doCredentialsMatch_true, infoOf, infoParts_some, hsvc.saved_empty _ _ (nullOrEmpty_some.mpr rfl),
    tokenParts_password_empty]

/-- What the empty hash leaves to be wrong: an unlisted key beside decodable lines, or no credential at all. -/
theorem matches_of_empty_sound_iff (hsvc : svc.Documented) :
    (doCredentialsMatch kp svc token (some (infoOf token (some "") lines)) = .ok true →
      CarriesListedKey kp token lines) ↔
    OnlyPassword token ∨ CarriesListedKey kp token lines ∨
      OnlyKey token ∧ ∃ line ∈ lines, ∃ e, decoded kp line = .error e := by
  rw [matches_of_empty hsvc]
  constructor
  · intro h
    by_cases honly : OnlyPassword token
    · exact .inl honly
    match hk : keysMatch kp (tokenParts token.getCredentials).2 (some lines) with
    | .ok true => exact .inr (.inl (h (.inl hk)))
    | .ok false => exact .inr (.inl (h (.inr ⟨hk, honly⟩)))
    | .error e =>
      match htk : (tokenParts token.getCredentials).2 with
      | none => simp [htk] at hk
      | some k =>
        rw [htk] at hk
        obtain ⟨hkey, hpw⟩ := tokenParts_key htk
        obtain ⟨line, hline, hdec⟩ := keysMatchLoop_error hk
        exact .inr (.inr ⟨⟨by simp [hkey], hpw⟩, line, hline, e, hdec⟩)
  · have hmatch : keysMatch kp (tokenParts token.getCredentials).2 (some lines) = .ok true →
        CarriesListedKey kp token lines := by
      intro hk
      obtain ⟨k, hk, line, hline, hdec⟩ := keysMatch_true hk
      exact ⟨k, (tokenParts_key hk).1, line, hline, hdec⟩
    rintro (honly | hl | ⟨⟨hkey, hpw⟩, line, hline, e, hdec⟩) (hk | ⟨hk, hno⟩)
    · exact hmatch hk
    · exact absurd honly hno
    · exact hl
    · exact hl
    · exact hmatch hk
    · -- without a match every line was decoded, so `line` was
      obtain ⟨k, hk'⟩ := Option.ne_none_iff_exists'.mp hkey
      have hparts : (tokenParts token.getCredentials).2 = some k := by simp [tokenParts_eq, hpw, hk']
      rw [hparts] at hk
      obtain ⟨k', hdec', -⟩ := keysMatchLoop_false.mp hk line hline
      rw [hdec] at hdec'
      cases hdec'

end Decision

/-! ### One unchanging row -/

/-- Where an acceptance on the row `u` is always right: the stored hash is non-empty, or the token is a lone
non-empty password, or it carries a listed key, or the hash is the empty string, the token is a lone key and some
key line does not decode. -/
def RowSafe (kp : KeyProvider PublicKey) (db : Database) (u : UserRow) (token : AuthenticationToken PublicKey) : Prop :=
  ¬ nullOrEmpty u.password ∨ OnlyPassword token ∨ CarriesListedKey kp token (db.keyLines u) ∨
    u.password = some "" ∧ OnlyKey token ∧ ∃ line ∈ db.keyLines u, ∃ e, decoded kp line = .error e

section Row

variable [DecidableEq PublicKey]

/-- **Soundness on one row.**  An accepted token is right exactly where the row is safe for it. -/
theorem authenticate_sound_iff (kp : KeyProvider PublicKey) (svc : PasswordService) (hsvc : svc.Documented)
    (db : Database) (u : UserRow) (hu : u ∈ db.users) (token : AuthenticationToken PublicKey)
    (hp : token.getPrincipal = some u.username) :
    (authenticate kp svc (.still db) token = .ok true → Justified kp svc db u token) ↔ RowSafe kp db u token := by
  have hf : db.findUser token.getPrincipal = some u := Database.findUser_eq_some.mpr ⟨hu, hp.symm⟩
  have hauth : authenticate kp svc (.still db) token =
      doCredentialsMatch kp svc token (some (infoOf token u.password (db.keyLines u))) := by
    rw [authenticate_of_present (u := u) hf]
    simp [QueryStates.still, Database.keyLinesOf, hf]
  rw [hauth]
  unfold Justified RowSafe
  cases hst : u.password with
  | none =>
    rw [matches_of_null hsvc]
    simp [CarriesPassword, imp_iff_not_or]
  | some hash =>
    by_cases he : hash = ""
    · subst he
      have hno : ¬ CarriesPassword svc token (some "") := fun h => h.2.1 (nullOrEmpty_some.mpr rfl)
      simp only [hno, or_false, matches_of_empty_sound_iff hsvc, nullOrEmpty_some, not_true_eq_false, false_or,
        true_and]
    · have hne : ¬ nullOrEmpty (some hash) := he
      exact ⟨fun _ => .inl hne, fun _ h => matches_of_hash hsvc hne h⟩

/-- A service that compares the saved text itself. -/
def plainService : PasswordService where
  passwordsMatch submitted saved :=
    if nullOrEmpty saved then decide (nullOrEmpty submitted)
    else !decide (nullOrEmpty submitted) && submitted == saved

theorem plainService_documented : plainService.Documented where
  saved_empty := fun submitted saved h => by simp [plainService, h]
  submitted_empty := fun submitted saved h h' => by simp [plainService, h, h']

/-- Keys that are numbers; nothing is Base64. -/
def noKeys : KeyProvider ℕ where
  base64Decode := fun _ => none
  newString := fun _ => ""
  generateRSA := fun m _ => .ok m.toNat
  generateDSA := fun y _ _ _ => .ok y.toNat

/-- The user `admin` with a `NULL` password and no key lines. -/
def nullPasswordDb : Database := ⟨{ users := [⟨1, "admin", none⟩] }, by decide⟩

/-- The token of `admin` with some key and no password. -/
def strangerToken : AuthenticationToken ℕ := .dynamy (some "admin") none (some 7)

theorem authenticate_sound_iff_nullPassword :
    (authenticate noKeys plainService (.still nullPasswordDb) strangerToken = .ok true →
      Justified noKeys plainService nullPasswordDb ⟨1, "admin", none⟩ strangerToken) ↔
    RowSafe noKeys nullPasswordDb ⟨1, "admin", none⟩ strangerToken :=
  authenticate_sound_iff noKeys plainService plainService_documented nullPasswordDb ⟨1, "admin", none⟩ (by decide)
    strangerToken rfl

/-- With a `NULL` password any key is let in: acceptance does not imply a listed key or a verified password. -/
theorem authenticate_not_sound :
    ¬ ∀ (kp : KeyProvider ℕ) (svc : PasswordService), svc.Documented → ∀ (db : Database), ∀ u ∈ db.users,
      ∀ token : AuthenticationToken ℕ, token.getPrincipal = some u.username →
        authenticate kp svc (.still db) token = .ok true → Justified kp svc db u token := by
  intro h
  rcases h noKeys plainService plainService_documented nullPasswordDb ⟨1, "admin", none⟩ (by decide) strangerToken
    rfl rfl with ⟨-, -, line, hline, -⟩ | ⟨hpw, -⟩
  · exact absurd hline (by simp [Database.keyLines, nullPasswordDb])
  · exact hpw nullOrEmpty_none

end Row

/-! ### Statements between the queries -/

/-- The states the three queries see when `cs₁` and `cs₂` commit between them. -/
def QueryStates.between (db : Database) (cs₁ cs₂ : List Change) : QueryStates :=
  ⟨db, db.commits cs₁, (db.commits cs₁).commits cs₂⟩

/-- In the state `db` the token's user exists and its login is right. -/
def JustifiedAt (kp : KeyProvider PublicKey) (svc : PasswordService) (db : Database)
    (token : AuthenticationToken PublicKey) : Prop :=
  ∃ u, db.findUser token.getPrincipal = some u ∧ Justified kp svc db u token

/-- Where an acceptance in the window is always right at some moment of it: the first query finds no user, or the
password query still finds one, or the token is a lone non-empty password, or it is right anyway in one of the states. -/
def WindowSafe (kp : KeyProvider PublicKey) (svc : PasswordService) (db : Database) (cs₁ cs₂ : List Change)
    (token : AuthenticationToken PublicKey) : Prop :=
  db.findUser token.getPrincipal = none ∨ (db.commits cs₁).findUser token.getPrincipal ≠ none ∨ OnlyPassword token ∨
    ∃ d ∈ db.history (cs₁ ++ cs₂), JustifiedAt kp svc d token

theorem Database.history_append (db : Database) (cs₁ cs₂ : List Change) {d : Database} :
    d ∈ db.history (cs₁ ++ cs₂) ↔ d ∈ db.history cs₁ ∨ d ∈ (db.commits cs₁).history cs₂ := by
  induction cs₁ generalizing db with
  | nil =>
    have hmem := db.mem_history_self cs₂
    simp only [List.nil_append, Database.history, Database.commits, List.foldl_nil, List.mem_singleton]
    exact ⟨.inr, fun h => h.elim (fun he => he ▸ hmem) id⟩
  | cons c cs ih =>
    simp only [List.cons_append, Database.history, List.mem_cons, ih, or_assoc]
    rfl

section Window

variable [DecidableEq PublicKey]

/-- **Deleted meanwhile**: a user whom the first query finds and the password query does not is always let in, but for a
lone non-empty password. -/
theorem accepted_of_deleted (kp : KeyProvider PublicKey) {svc : PasswordService} (hsvc : svc.Documented)
    {db : Database} {cs₁ : List Change} (cs₂ : List Change) {token : AuthenticationToken PublicKey}
    (hfound : db.findUser token.getPrincipal ≠ none) (hdeleted : (db.commits cs₁).findUser token.getPrincipal = none) :
    authenticate kp svc (.between db cs₁ cs₂) token = .ok true ↔ ¬ OnlyPassword token := by
  obtain ⟨u, hu⟩ := Option.ne_none_iff_exists'.mp hfound
  rw [authenticate_of_present (show (QueryStates.between db cs₁ cs₂).atExists.findUser _ = _ from hu)]
  simp only [QueryStates.between, hdeleted, Option.bind_none, matches_of_null hsvc]

/-- **Soundness in a window.**  With non-empty hashes throughout, an accepted token was right at some moment between
the first and the last query exactly where the window is safe for it. -/
theorem login_window_iff (kp : KeyProvider PublicKey) (svc : PasswordService) (hsvc : svc.Documented) (db : Database)
    (cs₁ cs₂ : List Change) (hne : ∀ d ∈ db.history (cs₁ ++ cs₂), ∀ u ∈ d.users, ¬ nullOrEmpty u.password)
    (token : AuthenticationToken PublicKey) :
    (authenticate kp svc (.between db cs₁ cs₂) token = .ok true →
      ∃ d ∈ db.history (cs₁ ++ cs₂), JustifiedAt kp svc d token) ↔ WindowSafe kp svc db cs₁ cs₂ token := by
  have h2 : db.commits cs₁ ∈ db.history (cs₁ ++ cs₂) :=
    (db.history_append cs₁ cs₂).mpr (.inl (db.commits_mem_history cs₁))
  have h3 : (db.commits cs₁).commits cs₂ ∈ db.history (cs₁ ++ cs₂) :=
    (db.history_append cs₁ cs₂).mpr (.inr ((db.commits cs₁).commits_mem_history cs₂))
  unfold WindowSafe
  match h1 : db.findUser token.getPrincipal with
  | none =>
    rw [authenticate_of_absent (show (QueryStates.between db cs₁ cs₂).atExists.findUser _ = _ from h1)]
    simp
  | some u₁ =>
    match hu : (db.commits cs₁).findUser token.getPrincipal with
    | none =>
      rw [accepted_of_deleted kp hsvc cs₂ (by rw [h1]; exact Option.some_ne_none u₁) hu]
      tauto
    | some u₂ =>
      rw [authenticate_of_present (show (QueryStates.between db cs₁ cs₂).atExists.findUser _ = _ from h1)]
      simp only [QueryStates.between, hu]
      refine ⟨fun _ => .inr (.inl (by simp)), fun _ hacc => ?_⟩
      have hst : ¬ nullOrEmpty u₂.password := hne _ h2 u₂ (Database.findUser_eq_some.mp hu).1
      rcases matches_of_hash hsvc hst hacc with ⟨k, hk, line, hline, hdec⟩ | hpw
      · -- the key lines are those of the third state, so the user exists there
        unfold Database.keyLinesOf at hline
        match hu₃ : ((db.commits cs₁).commits cs₂).findUser token.getPrincipal with
        | none => simp [hu₃] at hline
        | some u₃ =>
          rw [hu₃] at hline
          exact ⟨_, h3, u₃, hu₃, .inl ⟨k, hk, line, hline, hdec⟩⟩
      · exact ⟨_, h2, u₂, hu, .inr hpw⟩

/-- The user `admin` with a hash and no key lines. -/
def adminDb : Database := ⟨{ users := [⟨1, "admin", some "hash"⟩] }, by decide⟩

theorem adminDb_history {d : Database} (hd : d ∈ adminDb.history [.deleteUser 1]) :
    d.users = [⟨1, "admin", some "hash"⟩] ∨ d.users = [] := by
  simp only [Database.history, List.mem_cons, List.not_mem_nil, or_false] at hd
  rcases hd with rfl | rfl
  · exact .inl rfl
  · exact .inr rfl

theorem adminDb_hashes : ∀ d ∈ adminDb.history [.deleteUser 1], ∀ u ∈ d.users, ¬ nullOrEmpty u.password := by
  intro d hd u hu
  rcases adminDb_history hd with h | h <;> rw [h] at hu
  · obtain rfl : u = ⟨1, "admin", some "hash"⟩ := by simpa using hu
    decide
  · cases hu

theorem login_window_iff_deleted :
    (authenticate noKeys plainService (.between adminDb [.deleteUser 1] []) strangerToken = .ok true →
      ∃ d ∈ adminDb.history ([.deleteUser 1] ++ []), JustifiedAt noKeys plainService d strangerToken) ↔
    WindowSafe noKeys plainService adminDb [.deleteUser 1] [] strangerToken :=
  login_window_iff noKeys plainService plainService_documented adminDb [.deleteUser 1] [] adminDb_hashes strangerToken

/-- A user deleted between the first two queries is let in with any key. -/
theorem login_window_not_sound :
    ¬ ∀ (kp : KeyProvider ℕ) (svc : PasswordService), svc.Documented → ∀ (db : Database) (cs₁ cs₂ : List Change),
      (∀ d ∈ db.history (cs₁ ++ cs₂), ∀ u ∈ d.users, ¬ nullOrEmpty u.password) → ∀ token : AuthenticationToken ℕ,
        authenticate kp svc (.between db cs₁ cs₂) token = .ok true →
          ∃ d ∈ db.history (cs₁ ++ cs₂), JustifiedAt kp svc d token := by
  intro h
  obtain ⟨d, hd, u, -, ⟨-, -, line, hline, -⟩ | ⟨hpw, -⟩⟩ := h noKeys plainService plainService_documented adminDb
    [.deleteUser 1] [] adminDb_hashes strangerToken rfl
  · simp only [Database.history, List.append_nil, List.mem_cons, List.not_mem_nil, or_false] at hd
    rcases hd with rfl | rfl
    · exact absurd hline (by simp [Database.keyLines, adminDb])
    · have hkeys : (adminDb.commit (.deleteUser 1)).authorizedKeys = [] := rfl
      exact absurd hline (by simp [Database.keyLines, hkeys])
  · exact hpw nullOrEmpty_none

end Window

end Dynamy.Security
