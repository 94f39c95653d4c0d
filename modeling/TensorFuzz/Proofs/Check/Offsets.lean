import Mathlib.Algebra.GroupWithZero.Nat
import TensorFuzz.Proofs.Check.Cutting

/-!
# Cutting by offsets

In memory a text is a sequence of bytes, and is cut at byte offsets. A cut beyond the end or inside a character is
refused. Here tokens are cut in that way; every offset comes from a search for a character or is the length of what
stands in front of the cut, so no cut is refused, and the tokens are those that are read character by character.
-/

namespace TensorFuzz.Check

/-! ## Offsets -/

def byteLength (text : List Char) : Nat := (text.map Char.utf8Size).sum

/-- The text behind the first `n` bytes. -/
def dropBytes? (n : Nat) : List Char → Option (List Char)
  | [] => if n = 0 then some [] else none
  | c :: rest =>
    if n = 0 then some (c :: rest)
    else if c.utf8Size ≤ n then dropBytes? (n - c.utf8Size) rest
    else none

/-- The first `n` bytes of the text. -/
def takeBytes? (n : Nat) : List Char → Option (List Char)
  | [] => if n = 0 then some [] else none
  | c :: rest =>
    if n = 0 then some []
    else if c.utf8Size ≤ n then (takeBytes? (n - c.utf8Size) rest).map (c :: ·)
    else none

/-- The offset of the first character with the property. -/
def findOffset? (p : Char → Bool) : List Char → Option Nat
  | [] => none
  | c :: rest => if p c then some 0 else (findOffset? p rest).map (c.utf8Size + ·)

/-- The text in front of the first character with the property, and the text from there on. -/
def cutAt? (p : Char → Bool) (text : List Char) : Option (List Char × List Char) := do
  let offset := (findOffset? p text).getD (byteLength text)
  return (← takeBytes? offset text, ← dropBytes? offset text)

theorem byteLength_cons (c : Char) (text : List Char) : byteLength (c :: text) = c.utf8Size + byteLength text := rfl

theorem byteLength_append (text text' : List Char) : byteLength (text ++ text') = byteLength text + byteLength text' := by
  simp [byteLength]

theorem dropBytes?_append (front rest : List Char) : dropBytes? (byteLength front) (front ++ rest) = some rest := by
  induction front with
  | nil => cases rest <;> rfl
  | cons c front ih =>
    have hpos := c.utf8Size_pos
    rw [List.cons_append, dropBytes?, byteLength_cons, if_neg (by omega), if_pos (by omega), Nat.add_sub_cancel_left, ih]

theorem takeBytes?_append (front rest : List Char) : takeBytes? (byteLength front) (front ++ rest) = some front := by
  induction front with
  | nil => cases rest <;> rfl
  | cons c front ih =>
    have hpos := c.utf8Size_pos
    rw [List.cons_append, takeBytes?, byteLength_cons, if_neg (by omega), if_pos (by omega), Nat.add_sub_cancel_left, ih]
    rfl

/-- What is found is the end of the longest front without the property. -/
theorem findOffset?_eq (p : Char → Bool) (text : List Char) : findOffset? p text =
    if text.dropWhile (!p ·) = [] then none else some (byteLength (text.takeWhile (!p ·))) := by
  induction text with
  | nil => rfl
  | cons c text ih =>
    cases hc : p c with
    | true => simp [findOffset?, hc, byteLength]
    | false =>
      rw [findOffset?, hc, if_neg Bool.false_ne_true, ih, List.dropWhile_cons_of_pos (by simp [hc]),
        List.takeWhile_cons_of_pos (by simp [hc]), byteLength_cons]
      split <;> rfl

/-- Where nothing is found, the front is the whole text. -/
theorem findOffset?_getD (p : Char → Bool) (text : List Char) (k : Nat) :
    ((findOffset? p text).map (k + ·)).getD (k + byteLength text) = k + byteLength (text.takeWhile (!p ·)) := by
  rw [findOffset?_eq]
  split
  · next hdrop =>
    have hall := List.takeWhile_append_dropWhile (p := (!p ·)) (l := text)
    rw [hdrop, List.append_nil] at hall
    rw [hall]
    rfl
  · rfl

theorem cutAt?_eq (p : Char → Bool) (text : List Char) :
    cutAt? p text = some (text.takeWhile (!p ·), text.dropWhile (!p ·)) := by
  have hoffset : (findOffset? p text).getD (byteLength text) = byteLength (text.takeWhile (!p ·)) := by
    simpa using findOffset?_getD p text 0
  have hall := List.takeWhile_append_dropWhile (p := (!p ·)) (l := text)
  generalize text.takeWhile (!p ·) = front at hoffset hall ⊢
  generalize text.dropWhile (!p ·) = rest at hall ⊢
  subst hall
  rw [cutAt?, hoffset, takeBytes?_append, dropBytes?_append]
  rfl

/-! ## Tokens -/

/-- The text behind a point and digits, if it begins with these. -/
def fractionByOffset (text : List Char) : Option (Option (List Char)) :=
  if text.head? = some '.' then do
    let places ← dropBytes? 1 text
    if places.head?.any (·.isDigit) then
      return some (← dropBytes? (((findOffset? (!·.isDigit) places).map (1 + ·)).getD (byteLength text)) text)
    else return none
  else return none

/-- The text behind the quote that closes the one that the text begins with. -/
def stringByOffset (text : List Char) : Option (Option (List Char)) := do
  match findOffset? (· = '"') (← dropBytes? 1 text) with
  | none => return none
  | some close => return some (← dropBytes? (close + 2) text)

/-- The word behind a point and the text behind that, if the text begins with these. -/
def queryByOffset (text : List Char) : Option (Option (List Char × List Char)) :=
  if text.head? = some '.' then do
    let body ← dropBytes? 1 text
    if body.head?.any (·.isAlpha) then return some (← cutAt? (!isIdentChar ·) body) else return none
  else return none

/-- One token cut off a text; `none` if a cut is refused. -/
def nextByOffset (whole : String) : List Char → Option (Except Error (Token × List Char))
  | [] => some (.error .unexpectedEnd)
  | c :: rest =>
    let text := c :: rest
    if c.isDigit then do
      let (digits, after) ← cutAt? (!·.isDigit) text
      match ← fractionByOffset after with
      | some after => return .ok (.float, after)
      | none => return next.integer digits after
    else if c = '"' then do
      match ← stringByOffset text with
      | some after => return .ok (.string, after)
      | none => return .error (.unterminated whole)
    else if isIdentStart c then do
      let (name, after) ← cutAt? (!isIdentChar ·) text
      return .ok (.ident (String.ofList name), after)
    else do
      match ← queryByOffset text with
      | some (name, after) => return .ok (.query (String.ofList name), after)
      | none =>
        match symbol? text with
        | some (symbol, _) => return .ok (.symbol symbol, ← dropBytes? symbol.text.utf8ByteSize text)
        | none => return .error (.unexpectedChar c whole)

def scanByOffset (whole : String) : Nat → List Token → List Char → Option (Except Error (List Token))
  | 0, _, _ => some (.error .tooDeep)
  | fuel + 1, done, text =>
    match text.dropWhile Text.isBlank with
    | [] => some (.ok done.reverse)
    | c :: rest => do
      match ← nextByOffset whole (c :: rest) with
      | .ok (token, after) => scanByOffset whole fuel (token :: done) after
      | .error error => some (.error error)

/-- The tokens of a text, cut off by byte offsets; `none` if a cut is refused. -/
def tokensByOffset (text : String) : Option (Except Error (List Token)) :=
  scanByOffset text (text.toList.length + 1) [] text.toList

/-! ## No cut is refused -/

theorem dropBytes?_point (text : List Char) : dropBytes? 1 ('.' :: text) = some text := dropBytes?_append ['.'] text

/-- The text behind a point and digits, read character by character. -/
def fraction? : List Char → Option (List Char)
  | '.' :: d :: places => if d.isDigit then some (places.dropWhile (·.isDigit)) else none
  | _ => none

theorem fractionByOffset_eq (text : List Char) : fractionByOffset text = some (fraction? text) := by
  fun_cases fraction? text with
  | case1 d places hd =>
    have hfront : byteLength ('.' :: (d :: places).takeWhile (·.isDigit)) =
        1 + byteLength ((d :: places).takeWhile (·.isDigit)) := rfl
    have hoffset := findOffset?_getD (!·.isDigit) (d :: places) 1
    simp only [Bool.not_not] at hoffset
    have hdrop := dropBytes?_append ('.' :: (d :: places).takeWhile (·.isDigit)) ((d :: places).dropWhile (·.isDigit))
    rw [hfront, ← hoffset, List.cons_append, List.takeWhile_append_dropWhile, List.dropWhile_cons_of_pos hd] at hdrop
    rw [fractionByOffset, List.head?_cons, if_pos rfl, dropBytes?_point]
    simp only [Option.bind_eq_bind, Option.bind_some, List.head?_cons, Option.any_some, hd, if_pos]
    rw [show byteLength ('.' :: d :: places) = 1 + byteLength (d :: places) from rfl, hdrop]
    rfl
  | case2 d places hd =>
    rw [fractionByOffset, List.head?_cons, if_pos rfl, dropBytes?_point]
    simp [hd]
  | case3 _ hpoint =>
    cases text with
    | nil => rfl
    | cons c rest =>
      by_cases hc : c = '.'
      · subst hc
        cases rest with
        | nil => rfl
        | cons d places => exact absurd rfl (hpoint d places)
      · rw [fractionByOffset, if_neg (by simpa using hc)]
        rfl

theorem stringByOffset_eq (rest : List Char) : stringByOffset ('"' :: rest) =
    some (match rest.dropWhile (· ≠ '"') with
      | [] => none
      | _ :: after => some after) := by
  have hopen : dropBytes? 1 ('"' :: rest) = some rest := dropBytes?_append ['"'] rest
  have hall := List.takeWhile_append_dropWhile (p := fun x => decide (x ≠ '"')) (l := rest)
  have hquote := List.head?_dropWhile_not (fun x => decide (x ≠ '"')) rest
  have hfound := findOffset?_eq (· = '"') rest
  simp only [← decide_not] at hfound
  simp only [stringByOffset, hopen, Option.bind_eq_bind, Option.bind_some]
  cases hdrop : rest.dropWhile (fun x => decide (x ≠ '"')) with
  | nil =>
    rw [hfound, if_pos hdrop]
    rfl
  | cons q after =>
    rw [hdrop] at hall hquote
    obtain rfl : q = '"' := by simpa using hquote
    rw [hfound, if_neg fun hnil => List.cons_ne_nil _ _ (hdrop.symm.trans hnil)]
    generalize rest.takeWhile (fun x => decide (x ≠ '"')) = content at hall ⊢
    -- the closing quote is one byte, as the opening one is
    have hclose := dropBytes?_append ('"' :: (content ++ ['"'])) after
    have hlength : byteLength ('"' :: (content ++ ['"'])) = byteLength content + 2 := by
      have hone : '"'.utf8Size = 1 := rfl
      rw [byteLength_cons, byteLength_append, byteLength_cons, hone]
      show 1 + (byteLength content + 1) = _
      omega
    have htext : '"' :: (content ++ ['"']) ++ after = '"' :: rest := by simp [← hall]
    rw [hlength, htext] at hclose
    dsimp only
    rw [hclose]
    rfl

theorem queryByOffset_eq (c : Char) (rest : List Char) : queryByOffset (c :: rest) =
    some (if c = '.' && (rest.head?.map (·.isAlpha)).getD false then
      some (rest.takeWhile isIdentChar, rest.dropWhile isIdentChar) else none) := by
  by_cases hc : c = '.'
  · subst hc
    rw [queryByOffset, List.head?_cons, if_pos rfl, dropBytes?_point]
    simp only [Option.bind_eq_bind, Option.bind_some, cutAt?_eq, Bool.not_not]
    cases rest with
    | nil => rfl
    | cons d rest => cases hd : d.isAlpha <;> simp [hd]
  · rw [queryByOffset, if_neg (by simpa using hc)]
    simp [hc]

/-- A symbol stands at the front of the text. -/
theorem symbol?_text {text rest : List Char} {symbol : Symbol} (h : symbol? text = some (symbol, rest)) :
    text = symbol.text.toList ++ rest := by
  unfold symbol? at h
  split at h <;> cases h <;> rfl

theorem byteLength_symbol (symbol : Symbol) : byteLength symbol.text.toList = symbol.text.utf8ByteSize := by
  cases symbol <;> rfl

/-- The word from the first character on. -/
theorem cutAt?_cons {p : Char → Bool} {c : Char} (rest : List Char) (hc : p c = true) :
    cutAt? (!p ·) (c :: rest) = some (c :: rest.takeWhile p, rest.dropWhile p) := by
  simp [cutAt?_eq, hc]

theorem nextByOffset_eq (whole : String) (text : List Char) : nextByOffset whole text = some (next whole text) := by
  match text with
  | [] => rfl
  | c :: rest =>
    unfold nextByOffset next
    dsimp only
    split
    · next hdigit =>
      rw [cutAt?_cons rest hdigit]
      simp only [Option.bind_eq_bind, Option.bind_some, fractionByOffset_eq]
      generalize rest.dropWhile (·.isDigit) = after
      fun_cases fraction? after with
      | case1 d places hd =>
        show _ = some (if d.isDigit = true then _ else _)
        rw [if_pos hd]
        rfl
      | case2 d places hd =>
        show _ = some (if d.isDigit = true then _ else _)
        rw [if_neg hd]
        rfl
      | case3 _ hpoint =>
        show some (next.integer _ after) = _
        split
        · next d places => exact (hpoint d places rfl).elim
        · rfl
    · split
      · next hquote =>
        subst hquote
        rw [stringByOffset_eq]
        simp only [Option.bind_eq_bind, Option.bind_some]
        cases rest.dropWhile (fun x => decide (x ≠ '"')) <;> rfl
      · split
        · next hstart =>
          rw [cutAt?_cons rest (isIdentChar_of_isIdentStart hstart)]
          rfl
        · rw [queryByOffset_eq]
          simp only [Option.bind_eq_bind, Option.bind_some]
          by_cases hquery : (c = '.' && (rest.head?.map (·.isAlpha)).getD false) = true
          · rw [if_pos hquery, if_pos hquery]
            rfl
          · rw [if_neg hquery, if_neg hquery]
            cases hsymbol : symbol? (c :: rest) with
            | none => rfl
            | some found =>
              obtain ⟨symbol, after⟩ := found
              have hdrop := dropBytes?_append symbol.text.toList after
              rw [← symbol?_text hsymbol, byteLength_symbol] at hdrop
              simp only [hdrop, Option.bind_some]
              rfl

theorem scanByOffset_eq (whole : String) (fuel : Nat) (done : List Token) (text : List Char) :
    scanByOffset whole fuel done text = some (scan whole fuel done text) := by
  induction fuel generalizing done text with
  | zero => rfl
  | succ fuel ih =>
    rw [scanByOffset, scan]
    cases text.dropWhile Text.isBlank with
    | nil => rfl
    | cons c rest =>
      dsimp only
      rw [nextByOffset_eq]
      cases next whole (c :: rest) with
      | error e => rfl
      | ok found => exact ih _ _

theorem tokensByOffset_eq (text : String) : tokensByOffset text = some (tokens text) := scanByOffset_eq _ _ _ _

end TensorFuzz.Check
