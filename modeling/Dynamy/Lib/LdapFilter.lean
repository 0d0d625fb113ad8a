import Mathlib.Data.List.Basic
import Mathlib.Data.List.TakeWhile

/-!
# Dynamy.Lib.LdapFilter — filters in the string form of RFC 1960

A `Filter` combines items, each an attribute, a comparison and a value, and holds or not of an entry.  In its string
form the four characters that mean something inside a value are escaped (`render`), and `parse` reads every filter back
from its string form (`parse_render`).  White space between parentheses is no part of the grammar here.
-/

namespace Dynamy.Lib.LdapFilter

/-- The characters that a value escapes. -/
def isSpecial (c : Char) : Bool := c ∈ ['*', '(', ')', '\\']

def isAttributeChar (c : Char) : Bool := c ∉ ['(', ')', '&', '|', '!', '=', '~', '<', '>']

structure Attribute where
  name : List Char
  nonempty : name ≠ []
  plain : ∀ c ∈ name, isAttributeChar c = true

inductive Op
  | equal | approx | greaterEq | lessEq
  deriving DecidableEq, Repr

/-- Characters, and `none` for each wildcard. -/
abbrev Pattern := List (Option Char)

mutual

inductive Filter
  | and (fs : Filters)
  | or (fs : Filters)
  | not (f : Filter)
  | item (key : Attribute) (op : Op) (value : Pattern)

/-- One filter or more. -/
inductive Filters
  | single (f : Filter)
  | cons (f : Filter) (fs : Filters)

end

/-! ### What a filter means -/

/-- A wildcard stands for any characters. -/
def Pattern.accepts : Pattern → List Char → Bool
  | [], cs => cs.isEmpty
  | some c :: p, cs => cs.head? == some c && Pattern.accepts p cs.tail
  | none :: p, cs => cs.tails.any fun rest => Pattern.accepts p rest

/-- A comparison other than `=` knows no wildcards. -/
def Pattern.text (p : Pattern) : List Char := p.map (·.getD '*')

/-- `~=` ignores case and white space. -/
def normalize (cs : List Char) : List Char := (cs.filter (!·.isWhitespace)).map Char.toLower

def Op.holds (value : Pattern) (s : String) : Op → Bool
  | .equal => value.accepts s.toList
  | .approx => normalize s.toList == normalize value.text
  | .greaterEq => !decide (s.toList < value.text)
  | .lessEq => !decide (value.text < s.toList)

mutual

def Filter.holds (entry : String → Option String) : Filter → Bool
  | .and fs => fs.allHold entry
  | .or fs => fs.oneHolds entry
  | .not f => !f.holds entry
  | .item key op value => (entry (String.ofList key.name)).any fun s => op.holds value s

def Filters.allHold (entry : String → Option String) : Filters → Bool
  | .single f => f.holds entry
  | .cons f fs => f.holds entry && fs.allHold entry

def Filters.oneHolds (entry : String → Option String) : Filters → Bool
  | .single f => f.holds entry
  | .cons f fs => f.holds entry || fs.oneHolds entry

end

/-- A value without wildcards. -/
def literal (cs : List Char) : Pattern := cs.map some

theorem accepts_literal (cs ds : List Char) : (literal cs).accepts ds = true ↔ ds = cs := by
  induction cs generalizing ds with
  | nil => simp [literal, Pattern.accepts]
  | cons c cs ih =>
    have htail := ih ds.tail
    rw [literal] at htail
    simp only [literal, List.map_cons, Pattern.accepts, Bool.and_eq_true, htail]
    cases ds with
    | nil => simp
    | cons d ds => simp

/-! ### The string form -/

def renderChar : Option Char → List Char
  | none => ['*']
  | some c => if isSpecial c then ['\\', c] else [c]

def Op.render : Op → List Char
  | .equal => ['=']
  | .approx => ['~', '=']
  | .greaterEq => ['>', '=']
  | .lessEq => ['<', '=']

mutual

def Filter.render : Filter → List Char
  | .and fs => '(' :: '&' :: (fs.render ++ [')'])
  | .or fs => '(' :: '|' :: (fs.render ++ [')'])
  | .not f => '(' :: '!' :: (f.render ++ [')'])
  | .item key op value => '(' :: (key.name ++ (op.render ++ (value.flatMap renderChar ++ [')'])))

def Filters.render : Filters → List Char
  | .single f => f.render
  | .cons f fs => f.render ++ fs.render

end

/-- A value, up to the parenthesis that ends it. -/
def parseValue : List Char → Option (Pattern × List Char)
  | [] => none
  | ['\\'] => none
  | '\\' :: c :: cs => (parseValue cs).map fun (value, rest) => (some c :: value, rest)
  | c :: cs =>
    if c = ')' then some ([], cs)
    else if c = '(' then none
    else (parseValue cs).map fun (value, rest) => ((if c = '*' then none else some c) :: value, rest)

def parseOp : List Char → Option (Op × List Char)
  | '=' :: cs => some (.equal, cs)
  | '~' :: '=' :: cs => some (.approx, cs)
  | '>' :: '=' :: cs => some (.greaterEq, cs)
  | '<' :: '=' :: cs => some (.lessEq, cs)
  | _ => none

/-- What follows the opening parenthesis of an item. -/
def parseItem (cs : List Char) : Option (Filter × List Char) :=
  if h : cs.takeWhile isAttributeChar ≠ [] then do
    let (op, rest) ← parseOp (cs.dropWhile isAttributeChar)
    let (value, rest) ← parseValue rest
    return (.item ⟨cs.takeWhile isAttributeChar, h, fun _ hc => List.mem_takeWhile_imp hc⟩ op value, rest)
  else none

mutual

/-- A filter, and what follows it. -/
def parseFilter : ℕ → List Char → Option (Filter × List Char)
  | n + 1, '(' :: '&' :: cs => (parseFilters n cs).map fun (fs, rest) => (.and fs, rest)
  | n + 1, '(' :: '|' :: cs => (parseFilters n cs).map fun (fs, rest) => (.or fs, rest)
  | n + 1, '(' :: '!' :: cs =>
    match parseFilter n cs with
    | some (f, ')' :: rest) => some (.not f, rest)
    | _ => none
  | _ + 1, '(' :: cs => parseItem cs
  | _, _ => none

/-- Filters, up to the parenthesis that ends them. -/
def parseFilters : ℕ → List Char → Option (Filters × List Char)
  | 0, _ => none
  | n + 1, cs =>
    match parseFilter n cs with
    | none => none
    | some (f, ')' :: rest) => some (.single f, rest)
    | some (f, rest) => (parseFilters n rest).map fun (fs, rest) => (.cons f fs, rest)

end

/-- The filter that the whole string is, if it is one. -/
def parse (s : String) : Option Filter :=
  match parseFilter s.length s.toList with
  | some (f, []) => some f
  | _ => none

/-! ### Reading back what was written -/

theorem parseValue_cons {c : Char} {cs : List Char} (hescape : c ≠ '\\') (hend : c ≠ ')') (hopen : c ≠ '(') :
    parseValue (c :: cs) =
      (parseValue cs).map fun (value, rest) => ((if c = '*' then none else some c) :: value, rest) := by
  rw [parseValue.eq_4 _ _ (fun h _ => hescape h) (fun _ _ h _ => hescape h), if_neg hend, if_neg hopen]

theorem parseValue_render (value : Pattern) (rest : List Char) :
    parseValue (value.flatMap renderChar ++ ')' :: rest) = some (value, rest) := by
  induction value with
  | nil => rfl
  | cons o value ih =>
    rw [List.flatMap_cons, List.append_assoc]
    cases o with
    | none =>
      rw [renderChar, List.cons_append, List.nil_append, parseValue_cons (by decide) (by decide) (by decide), ih]
      rfl
    | some c =>
      by_cases hc : isSpecial c = true
      · rw [renderChar, if_pos hc, List.cons_append, List.cons_append, List.nil_append, parseValue, ih]
        rfl
      · have hplain : c ≠ '*' ∧ c ≠ '(' ∧ c ≠ ')' ∧ c ≠ '\\' := by simpa [isSpecial] using hc
        obtain ⟨hstar, hopen, hend, hescape⟩ := hplain
        rw [renderChar, if_neg hc, List.cons_append, List.nil_append, parseValue_cons hescape hend hopen, ih,
          Option.map_some, if_neg hstar]

theorem parseOp_render (op : Op) (rest : List Char) : parseOp (op.render ++ rest) = some (op, rest) := by
  cases op <;> rfl

theorem parseItem_render (key : Attribute) (op : Op) (value : Pattern) (rest : List Char) :
    parseItem (key.name ++ (op.render ++ (value.flatMap renderChar ++ ')' :: rest))) =
      some (.item key op value, rest) := by
  obtain ⟨name, hname, hplain⟩ := key
  have hstop : ∀ tail, (op.render ++ tail).takeWhile isAttributeChar = [] := fun tail => by cases op <;> rfl
  have hstop' : ∀ tail, (op.render ++ tail).dropWhile isAttributeChar = op.render ++ tail := fun tail => by cases op <;> rfl
  have htake : (name ++ (op.render ++ (value.flatMap renderChar ++ ')' :: rest))).takeWhile isAttributeChar = name := by
    rw [List.takeWhile_append_of_pos hplain, hstop, List.append_nil]
  have hdrop : (name ++ (op.render ++ (value.flatMap renderChar ++ ')' :: rest))).dropWhile isAttributeChar =
      op.render ++ (value.flatMap renderChar ++ ')' :: rest) := by
    rw [List.dropWhile_append_of_pos hplain, hstop']
  simp only [parseItem, htake, hdrop, parseOp_render, dif_pos hname, Option.bind_eq_bind, Option.bind_some,
    parseValue_render]
  rfl

/-- After an opening parenthesis, the name of an attribute begins an item. -/
theorem parseFilter_item {n : ℕ} {c : Char} {cs : List Char} (hc : isAttributeChar c = true) :
    parseFilter (n + 1) ('(' :: c :: cs) = parseItem (c :: cs) := by
  have hplain : c ≠ '&' ∧ c ≠ '|' ∧ c ≠ '!' := by
    refine ⟨?_, ?_, ?_⟩ <;> rintro rfl <;> exact absurd hc (by decide)
  obtain ⟨hand, hor, hnot⟩ := hplain
  rw [parseFilter.eq_4]
  · exact fun _ h => hand (List.cons.inj h).1
  · exact fun _ h => hor (List.cons.inj h).1
  · exact fun _ h => hnot (List.cons.inj h).1

theorem Filter.render_head (f : Filter) : ∃ cs, f.render = '(' :: cs := by
  cases f <;> exact ⟨_, rfl⟩

theorem Filters.render_head (fs : Filters) : ∃ cs, fs.render = '(' :: cs := by
  cases fs with
  | single f => exact f.render_head
  | cons f fs =>
    obtain ⟨cs, hcs⟩ := f.render_head
    exact ⟨cs ++ fs.render, by rw [Filters.render, hcs, List.cons_append]⟩

theorem Filter.render_pos (f : Filter) : 0 < f.render.length := by
  obtain ⟨cs, hcs⟩ := f.render_head
  rw [hcs]
  exact Nat.succ_pos _

mutual

/-- Every filter is read back from its string form; the fuel counts the characters. -/
theorem parseFilter_render (f : Filter) (n : ℕ) (rest : List Char) (hn : f.render.length ≤ n) :
    parseFilter n (f.render ++ rest) = some (f, rest) := by
  match f, n, hn with
  | f, 0, hn => exact absurd hn (Nat.not_le.mpr f.render_pos)
  | .and fs, n + 1, hn =>
    have hfs : fs.render.length < n := by simp only [Filter.render, List.length_cons, List.length_append] at hn; omega
    simp only [Filter.render, List.cons_append, List.append_assoc, List.nil_append, parseFilter,
      parseFilters_render fs n rest hfs, Option.map_some]
  | .or fs, n + 1, hn =>
    have hfs : fs.render.length < n := by simp only [Filter.render, List.length_cons, List.length_append] at hn; omega
    simp only [Filter.render, List.cons_append, List.append_assoc, List.nil_append, parseFilter,
      parseFilters_render fs n rest hfs, Option.map_some]
  | .not f, n + 1, hn =>
    have hf : f.render.length ≤ n := by simp only [Filter.render, List.length_cons, List.length_append] at hn; omega
    simp only [Filter.render, List.cons_append, List.append_assoc, List.nil_append, parseFilter,
      parseFilter_render f n (')' :: rest) hf]
  | .item key op value, n + 1, hn =>
    have hitem := parseItem_render key op value rest
    obtain ⟨_ | ⟨c, cs⟩, hname, hplain⟩ := key
    · exact absurd rfl hname
    · simp only [Filter.render, List.cons_append, List.append_assoc, List.nil_append] at hitem ⊢
      rw [parseFilter_item (hplain c List.mem_cons_self), hitem]

theorem parseFilters_render (fs : Filters) (n : ℕ) (rest : List Char) (hn : fs.render.length < n) :
    parseFilters n (fs.render ++ ')' :: rest) = some (fs, rest) := by
  match fs, n, hn with
  | .single f, n + 1, hn =>
    have hf : f.render.length ≤ n := Nat.lt_succ_iff.mp hn
    simp only [Filters.render, parseFilters, parseFilter_render f n (')' :: rest) hf]
  | .cons f fs, n + 1, hn =>
    have hpos := f.render_pos
    simp only [Filters.render, List.length_append] at hn
    have hf : f.render.length ≤ n := by omega
    have hfs : fs.render.length < n := by omega
    have hrest := parseFilters_render fs n rest hfs
    obtain ⟨cs, hcs⟩ := fs.render_head
    rw [hcs, List.cons_append] at hrest
    simp only [Filters.render, hcs, List.append_assoc, List.cons_append, parseFilters,
      parseFilter_render f n ('(' :: (cs ++ ')' :: rest)) hf]
    show (parseFilters n ('(' :: (cs ++ ')' :: rest))).map _ = _
    rw [hrest]
    rfl

end

/-- **Round trip**: a filter is read back from its string form. -/
theorem parse_render (f : Filter) : parse (String.ofList f.render) = some f := by
  have hf := parseFilter_render f f.render.length [] le_rfl
  rw [List.append_nil] at hf
  rw [parse, String.length_ofList, String.toList_ofList, hf]

/-- A value without special characters is its own string form. -/
theorem flatMap_renderChar_literal {cs : List Char} (h : ∀ c ∈ cs, isSpecial c = false) :
    (literal cs).flatMap renderChar = cs := by
  induction cs with
  | nil => rfl
  | cons c cs ih =>
    have hc : isSpecial c = false := h c List.mem_cons_self
    have htail := ih fun d hd => h d (List.mem_cons_of_mem c hd)
    rw [literal] at htail
    rw [literal, List.map_cons, List.flatMap_cons, htail, renderChar, hc]
    rfl

example : (parse "(&(a=x*)(b>=2))").map (·.holds fun key => if key = "a" then some "xyz" else some "3") = some true := by
  decide

end Dynamy.Lib.LdapFilter
