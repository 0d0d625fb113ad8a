import Dynamy.Shell.DynamyCompleter

/-!
# Dynamy.Commands.OsgiBundleCommand — completion of bundle ids

The completer that the commands on bundles share, under the completer of the shell.  Both get the whole buffer.  A
`StringsCompleter` compares with the whole buffer, too, and no bundle id begins with the name of a command and a blank:
nothing is ever offered, which is right only where no id begins with what has been typed (`offersIds_iff`).
-/

namespace Dynamy.Commands

open Dynamy.Java Dynamy.Lib Dynamy.Shell

variable {Ref Cmd : Type}

/-- `OsgiBundleCommand.getCompleter`, with `new StringsCompleter(..)` and the ids of `bundles` at the time. -/
def OsgiBundleCommand.getCompleter (stringsCompleter : List String → Completer) (bundles : List ℤ) : Completer :=
  fun buffer cursor candidates =>
    -- nothing reads these
    let _usedIds := splitSpaces (trim buffer)
    let bundleIds := bundles.map fun id => toString id
    stringsCompleter bundleIds buffer cursor candidates

/-- A `StringsCompleter` offers the strings that have the buffer as prefix. -/
def OffersPrefixed (stringsCompleter : List String → Completer) : Prop :=
  ∀ strings buffer cursor candidates, ∃ n offered,
    stringsCompleter strings buffer cursor candidates = .ok (n, candidates ++ offered) ∧
      ∀ t, t ∈ offered ↔ t ∈ strings ∧ startsWith t buffer = true

/-- The delimiter reads `word` as the first argument of the buffer, and the cursor stands in a later one. -/
def ReadsWord (completion : Completion Cmd) (word buffer : String) : Prop :=
  ∃ i args, completion.delimit buffer buffer.length = ⟨i, word :: args⟩ ∧ 1 ≤ i

/-- The word resolves to this command. -/
def Resolves (env : Env Ref Cmd) (s : ShellState) (word : String) (c : Cmd) : Prop :=
  ((paramCommand env [word]).run s).result = .ok (some c)

/-- What is offered besides the candidates are exactly the ids whose decimal text begins with `p`. -/
def OffersIds (bundles : List ℤ) (p : String) (candidates : List String)
    (result : Except Throwable (ℤ × List String)) : Prop :=
  ∃ n offered, result = .ok (n, candidates ++ offered) ∧
    ∀ t, t ∈ offered ↔ ∃ id ∈ bundles, t = toString id ∧ startsWith t p = true

/-! ### What the completers do -/

theorem blank_not_mem_natRepr (n : ℕ) : ' ' ∉ n.repr.toList := by
  intro h
  rw [Nat.toList_repr] at h
  have hdigit := Nat.isDigit_of_mem_toDigits (by decide) (by decide) h
  exact absurd hdigit (by decide)

/-- No decimal text has a blank. -/
theorem blank_not_mem_toString (id : ℤ) : ' ' ∉ (toString id).toList := by
  rw [Int.toString_eq_repr, Int.repr_eq_if]
  split
  · exact blank_not_mem_natRepr _
  · intro h
    rw [String.toList_append, List.mem_append] at h
    rcases h with h | h
    · exact absurd h (by decide)
    · exact blank_not_mem_natRepr _ h

theorem startsWith_iff {s pre : String} : startsWith s pre = true ↔ pre.toList <+: s.toList := by
  rw [startsWith, List.isPrefixOf_iff_prefix]

/-- An argument after the word is left to the completer of the command. -/
theorem result_complete (env : Env Ref Cmd) (completion : Completion Cmd) {word buffer : String} {c : Cmd}
    {completer : Completer} (hc : completion.getCompleter c = some completer)
    (hword : ReadsWord completion word buffer) (candidates : List String) {s : ShellState}
    (hres : Resolves env s word c) :
    ((complete env completion buffer buffer.length candidates).run s).result =
      completer buffer buffer.length candidates := by
  obtain ⟨i, args, hdelimit, hi⟩ := hword
  have hparam : ((paramCommand env (word :: args)).run s).result = .ok (some c) := hres
  rw [complete, hdelimit]
  dsimp only
  rw [if_neg (by omega), if_neg (by omega), Prog.run_bind]
  rcases hrun : (paramCommand env (word :: args)).run s with ⟨result, s', es⟩
  rw [hrun] at hparam
  subst hparam
  dsimp only
  rw [Option.bind_some, hc, Prog.run_ofExcept]

/-- No id has the buffer as prefix, since there is a blank in the buffer. -/
theorem getCompleter_offers_nothing {stringsCompleter : List String → Completer} (h : OffersPrefixed stringsCompleter)
    (bundles : List ℤ) {buffer : String} (hblank : ' ' ∈ buffer.toList) (cursor : ℤ) (candidates : List String) :
    ∃ n, OsgiBundleCommand.getCompleter stringsCompleter bundles buffer cursor candidates = .ok (n, candidates) := by
  obtain ⟨n, offered, hresult, hoffered⟩ := h (bundles.map fun id => toString id) buffer cursor candidates
  have hnone : offered = [] := by
    rw [List.eq_nil_iff_forall_not_mem]
    intro t ht
    obtain ⟨hmem, hstarts⟩ := (hoffered t).mp ht
    obtain ⟨id, -, rfl⟩ := List.mem_map.mp hmem
    exact blank_not_mem_toString id ((startsWith_iff.mp hstarts).subset hblank)
  refine ⟨n, ?_⟩
  rw [OsgiBundleCommand.getCompleter, hresult, hnone, List.append_nil]

/-! ### The ids offered, exactly -/

/-- **Completion of ids, exactly.**  For a word that resolves to a command on bundles, any earlier arguments and a last
argument `p` typed up to the cursor, the ids that begin with `p` are offered if and only if there are none. -/
theorem offersIds_iff (env : Env Ref Cmd) (completion : Completion Cmd) {stringsCompleter : List String → Completer}
    (hstrings : OffersPrefixed stringsCompleter) (bundles : List ℤ) {c : Cmd}
    (hc : completion.getCompleter c = some (OsgiBundleCommand.getCompleter stringsCompleter bundles))
    (word earlier p : String) (hword : ReadsWord completion word (word ++ " " ++ earlier ++ p)) {s : ShellState}
    (hres : Resolves env s word c) (candidates : List String) :
    OffersIds bundles p candidates ((complete env completion (word ++ " " ++ earlier ++ p)
      (word ++ " " ++ earlier ++ p).length candidates).run s).result ↔
      ∀ id ∈ bundles, startsWith (toString id) p = false := by
  have hblank : ' ' ∈ (word ++ " " ++ earlier ++ p).toList := by simp
  obtain ⟨n, hnothing⟩ :=
    getCompleter_offers_nothing hstrings bundles hblank (word ++ " " ++ earlier ++ p).length candidates
  rw [result_complete env completion hc hword candidates hres, hnothing]
  constructor
  · rintro ⟨n', offered, hresult, hoffered⟩ id hid
    have hnil : offered = [] := by
      rw [Except.ok.injEq, Prod.mk.injEq] at hresult
      exact List.self_eq_append_right.mp hresult.2
    by_contra hstarts
    rw [Bool.not_eq_false] at hstarts
    have hmem : toString id ∈ offered := (hoffered _).mpr ⟨id, hid, rfl, hstarts⟩
    rw [hnil] at hmem
    cases hmem
  · intro hnone
    refine ⟨n, [], by rw [List.append_nil], fun t => ⟨fun ht => absurd ht List.not_mem_nil, ?_⟩⟩
    rintro ⟨id, hid, rfl, hstarts⟩
    rw [hnone id hid] at hstarts
    cases hstarts

/-! ### One command on bundles -/

/-- `osgi:start`, alone. -/
def startOnly : Registry Unit where
  commands := [()]
  annotationOf _ :=
    { nameSpace := "osgi", name := "start", perms := ["dynamy:osgi:start"], description := "Start asked bundles" }
  frameworkProperty _ _ := none
  distinct := by decide

def outsideOfStart : World Unit Unit where
  getServiceReferences _ := .ok []
  getService _ := none
  isPermitted _ := .ok true
  hasAllRoles _ := .ok true
  execute _ _ := .ok none
  destroyed := false
  columns := none

def prefixStrings : List String → Completer := fun strings buffer _ candidates =>
  .ok (0, candidates ++ strings.filter fun t => startsWith t buffer)

theorem prefixStrings_offers : OffersPrefixed prefixStrings := fun strings buffer _ _ =>
  ⟨0, strings.filter fun t => startsWith t buffer, rfl, fun _ => List.mem_filter⟩

/-- Arguments separated by blanks, with the cursor in the last one, and `osgi:start` as the only command. -/
def startCompletion (bundles : List ℤ) : Completion Unit where
  delimit buffer _ := ⟨(splitSpaces buffer).length - 1, splitSpaces buffer⟩
  aggregate _ := fun _ _ candidates => .ok (-1, candidates)
  getCompleter _ := some (OsgiBundleCommand.getCompleter prefixStrings bundles)

theorem start_resolves (s : ShellState) : Resolves (startOnly.env ldapFilters outsideOfStart "") s "osgi:start" () :=
  startOnly.returns_paramCommand ldapFilters outsideOfStart "" "osgi:start" [] s

/-- No bundle has an id that begins with 7. -/
theorem offersIds_iff_none :
    OffersIds [0, 12] "7" [] ((complete (startOnly.env ldapFilters outsideOfStart "") (startCompletion [0, 12])
      ("osgi:start" ++ " " ++ "" ++ "7") ("osgi:start" ++ " " ++ "" ++ "7").length []).run {}).result :=
  (offersIds_iff _ (startCompletion [0, 12]) prefixStrings_offers [0, 12] rfl "osgi:start" "" "7"
    ⟨1, ["7"], by decide, le_rfl⟩ (start_resolves {}) []).mpr (by decide)

/-- Bundle 12 is not offered for `osgi:start 1`. -/
theorem id_not_offered :
    ¬ ∀ (bundles : List ℤ) (p : String), ReadsWord (startCompletion bundles) "osgi:start" ("osgi:start " ++ p) →
      OffersIds bundles p [] ((complete (startOnly.env ldapFilters outsideOfStart "") (startCompletion bundles)
        ("osgi:start " ++ p) ("osgi:start " ++ p).length []).run {}).result := by
  intro h
  have hword : ReadsWord (startCompletion [12]) "osgi:start" ("osgi:start " ++ "1") := ⟨1, ["1"], by decide, le_rfl⟩
  have hoffers := h [12] "1" hword
  rw [result_complete _ (startCompletion [12]) rfl hword [] (start_resolves {})] at hoffers
  have hblank : ' ' ∈ ("osgi:start " ++ "1").toList := by decide
  obtain ⟨n, hnothing⟩ :=
    getCompleter_offers_nothing prefixStrings_offers [12] hblank ("osgi:start " ++ "1").length []
  rw [hnothing] at hoffers
  obtain ⟨n', offered, hresult, hoffered⟩ := hoffers
  rw [Except.ok.injEq, Prod.mk.injEq, List.nil_append] at hresult
  have hmem : toString (12 : ℤ) ∈ offered := (hoffered _).mpr ⟨12, List.mem_singleton_self _, rfl, by decide⟩
  rw [← hresult.2] at hmem
  cases hmem

end Dynamy.Commands
