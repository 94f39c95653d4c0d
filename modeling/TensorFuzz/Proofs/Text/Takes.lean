/-!
# Readers of texts

A reader takes a part off the front of a text, or fails. `Takes` says which part it takes whatever text follows, as
long as that text may follow; it is proved by following the reader, one rule for each primitive.
-/

namespace TensorFuzz.Text

/-- A property of all characters of a text is decided character by character: nothing is asked about the many characters
that are not in it. -/
instance decidableForallMem {p : Char → Prop} [DecidablePred p] (text : List Char) : Decidable (∀ c ∈ text, p c) :=
  List.decidableBAll p text

/-! ## Fronts -/

section
variable {p : Char → Bool} {front rest : List Char}

theorem takeWhile_append_stop (hfront : ∀ c ∈ front, p c = true) (hrest : ∀ c ∈ rest.head?, p c = false) :
    (front ++ rest).takeWhile p = front := by
  rw [List.takeWhile_append_of_pos hfront]
  cases rest with
  | nil => simp
  | cons c rest => rw [List.takeWhile_cons_of_neg (by simp [hrest c rfl]), List.append_nil]

theorem dropWhile_append_stop (hfront : ∀ c ∈ front, p c = true) (hrest : ∀ c ∈ rest.head?, p c = false) :
    (front ++ rest).dropWhile p = rest := by
  rw [List.dropWhile_append_of_pos hfront]
  cases rest with
  | nil => rfl
  | cons c rest => rw [List.dropWhile_cons_of_neg (by simp [hrest c rfl])]

end

/-! ## Readers -/

/-- A reader of texts: what it reads off the front of a text, and what it leaves. -/
abbrev Reader := StateT (List Char) Option

namespace Reader

variable {α : Type}

/-- What is read off the front of a text. -/
def read (r : Reader α) (text : String) : Option α := r.run' text.toList

/-- Whether the text begins with the mark, which is taken then. -/
def skips (mark : String) : Reader Bool := fun text =>
  if mark.toList.isPrefixOf text then some (true, text.drop mark.toList.length) else some (false, text)

/-- Takes the mark that the text has to begin with. -/
def expect (mark : String) : Reader Unit := do guard (← skips mark)

/-- Takes the longest front of characters with the property, which must not be empty. -/
def span (p : Char → Bool) : Reader String := fun text =>
  if (text.takeWhile p).isEmpty then none else some (String.ofList (text.takeWhile p), text.dropWhile p)

/-- Parts up to the closing mark, less than `fuel` of them. -/
def fewer (part : Reader α) (closing : String) : Nat → Reader (List α)
  | 0 => failure
  | fuel + 1 => do
    if ← skips closing then return []
    let first ← part
    return first :: (← fewer part closing fuel)

/-- Parts up to the closing mark, none of which is empty. -/
def many (part : Reader α) (closing : String) : Reader (List α) := do fewer part closing ((← get).length + 1)

/-- Parts with separators between them, up to the closing mark. -/
def separated (part : Reader α) (separator closing : String) : Reader (List α) := do
  if ← skips closing then return []
  let first ← part
  return first :: (← many (do expect separator; part) closing)

end Reader

/-! ## What readers take -/

/-- The reader takes the front off every text in which what follows the front has the property `after`. -/
def Takes {α : Type} (after : List Char → Prop) (r : Reader α) (front : String) (a : α) : Prop :=
  ∀ rest, after rest → r (front.toList ++ rest) = some (a, rest)

/-- Every text may follow. -/
abbrev Anything (_ : List Char) : Prop := True

/-- No word of characters with the property goes on with the text. -/
def Stops (p : Char → Bool) (rest : List Char) : Prop := ∀ c ∈ rest.head?, p c = false

/-- A mark that no word goes on with ends the word before it. -/
theorem stops_mark {p : Char → Bool} {mark : String} (h : mark.toList.head?.any (!p ·) = true) (rest : List Char) :
    Stops p (mark.toList ++ rest) := by
  cases hlist : mark.toList with
  | nil =>
    rw [hlist] at h
    cases h
  | cons c cs =>
    rw [hlist] at h
    rintro _ ⟨⟩
    simpa using h

theorem stops_mark_append {p : Char → Bool} {mark : String} (h : mark.toList.head?.any (!p ·) = true) (tail : String)
    (rest : List Char) : Stops p ((mark ++ tail).toList ++ rest) := by
  rw [String.toList_append, List.append_assoc]
  exact stops_mark h _

namespace Takes

open Reader

variable {α β : Type} {after after' : List Char → Prop} {r : Reader α} {f : α → Reader β} {front front' : String}
  {a : α} {b : β}

theorem bind_of_some {text rest : List Char} (h : r text = some (a, rest)) : (r >>= f) text = f a rest := by
  show (r text >>= fun found => f found.1 found.2) = _
  rw [h]
  rfl

theorem mono (h : Takes after r front a) (hafter : ∀ rest, after' rest → after rest) : Takes after' r front a :=
  fun rest hrest => h rest (hafter rest hrest)

theorem anywhere (h : Takes Anything r front a) : Takes after r front a := h.mono fun _ _ => trivial

theorem bind (h : Takes after r front a) (hafter : ∀ rest, after' rest → after (front'.toList ++ rest))
    (hf : Takes after' (f a) front' b) : Takes after' (r >>= f) (front ++ front') b := fun rest hrest => by
  rw [String.toList_append, List.append_assoc, bind_of_some (h _ (hafter rest hrest))]
  exact hf rest hrest

/-- The last part that is taken, and what comes of it. -/
theorem last (h : Takes after r front a) (hf : f a = Pure.pure b) : Takes after (r >>= f) front b :=
  fun rest hrest => by
    rw [bind_of_some (h rest hrest), hf]
    rfl

theorem read_eq (h : Takes Anything r front a) {text : String} (tail : String) (htext : text = front ++ tail) :
    r.read text = some a := by
  rw [htext, Reader.read, String.toList_append]
  show (r (front.toList ++ tail.toList)).map (·.1) = some a
  rw [h _ trivial]
  rfl

/-! ## Primitives -/

theorem skips (mark : String) : Takes Anything (Reader.skips mark) mark true := fun rest _ => by
  have hprefix : mark.toList.isPrefixOf (mark.toList ++ rest) = true :=
    List.isPrefixOf_iff_prefix.mpr (List.prefix_append _ _)
  rw [Reader.skips, if_pos hprefix, List.drop_left]

theorem expect (mark : String) : Takes Anything (Reader.expect mark) mark () := fun rest hrest =>
  bind_of_some (skips mark rest hrest)

theorem span {p : Char → Bool} {word : String} (hne : word.toList ≠ []) (hword : ∀ c ∈ word.toList, p c = true) :
    Takes (Stops p) (Reader.span p) word word := fun rest hrest => by
  rw [Reader.span, takeWhile_append_stop hword hrest, dropWhile_append_stop hword hrest, String.ofList_toList]
  exact if_neg (by simpa using hne)

/-! ## Lists of parts -/

section
variable {part : Reader α} {separator closing : String} {items : List β} {text : β → String} {value : β → α}

/-- What cannot be read at a mark does not begin with it. -/
theorem skips_false (h : Takes after r front a) (hfails : ∀ rest, r (closing.toList ++ rest) = none)
    {rest : List Char} (hrest : after rest) :
    Reader.skips closing (front.toList ++ rest) = some (false, front.toList ++ rest) := by
  refine if_neg fun hprefix => ?_
  obtain ⟨tail, htail⟩ := List.isPrefixOf_iff_prefix.mp hprefix
  have htaken := h rest hrest
  rw [← htail, hfails] at htaken
  cases htaken

/-- A part, where the closing mark does not stand, and what is read after it. -/
theorem part_then (h : Takes after part front a) (hfails : ∀ rest, part (closing.toList ++ rest) = none)
    {tail : String} (hafter : ∀ rest, after (tail.toList ++ rest)) {more : Reader (List α)} {as : List α}
    (hmore : Takes Anything more tail as) :
    Takes Anything
      (do
        if ← Reader.skips closing then return []
        let first ← part
        return first :: (← more))
      (front ++ tail) (a :: as) := fun rest hrest => by
  rw [String.toList_append, List.append_assoc, bind_of_some (skips_false h hfails (hafter rest))]
  have hpart := h.bind (fun rest _ => hafter rest) (hmore.last rfl) (f := fun first => do return first :: (← more))
  rw [← List.append_assoc, ← String.toList_append]
  exact hpart rest hrest

theorem after_join (hnext : ∀ item ∈ items, ∀ rest, after ((text item).toList ++ rest))
    (hclosing : ∀ rest, after (closing.toList ++ rest)) (rest : List Char) :
    after ((String.join (items.map text) ++ closing).toList ++ rest) := by
  cases items with
  | nil => exact hclosing rest
  | cons item items =>
    rw [List.map_cons, String.join_cons, String.append_assoc, String.toList_append, List.append_assoc]
    exact hnext item List.mem_cons_self _

/-- No more parts than characters, where no part is empty. -/
theorem length_le_join (hne : ∀ item ∈ items, text item ≠ "") :
    items.length ≤ (String.join (items.map text)).toList.length := by
  induction items with
  | nil => exact Nat.zero_le _
  | cons item items ih =>
    obtain ⟨hitem, hitems⟩ := List.forall_mem_cons.mp hne
    have hpos : 0 < (text item).toList.length := List.length_pos_iff.mpr fun hnil =>
      hitem (String.toList_injective hnil)
    have hlength := ih hitems
    rw [List.map_cons, String.join_cons, String.toList_append, List.length_append, List.length_cons]
    omega

theorem fewer (hparts : ∀ item ∈ items, Takes after part (text item) (value item))
    (hnext : ∀ item ∈ items, ∀ rest, after ((text item).toList ++ rest))
    (hclosing : ∀ rest, after (closing.toList ++ rest)) (hfails : ∀ rest, part (closing.toList ++ rest) = none)
    {fuel : Nat} (hfuel : items.length < fuel) :
    Takes Anything (Reader.fewer part closing fuel) (String.join (items.map text) ++ closing) (items.map value) := by
  induction items generalizing fuel with
  | nil =>
    obtain ⟨fuel, rfl⟩ : ∃ n, fuel = n + 1 := ⟨fuel - 1, by omega⟩
    exact fun rest hrest => bind_of_some ((skips closing) rest hrest)
  | cons item items ih =>
    obtain ⟨fuel, rfl⟩ : ∃ n, fuel = n + 1 := ⟨fuel - 1, by omega⟩
    obtain ⟨hitem, hitems⟩ := List.forall_mem_cons.mp hparts
    obtain ⟨-, hothers⟩ := List.forall_mem_cons.mp hnext
    rw [List.map_cons, String.join_cons, String.append_assoc]
    exact part_then hitem hfails (after_join hothers hclosing) (ih hitems hothers (Nat.lt_of_succ_lt_succ hfuel))

theorem many (hparts : ∀ item ∈ items, Takes after part (text item) (value item))
    (hnext : ∀ item ∈ items, ∀ rest, after ((text item).toList ++ rest))
    (hclosing : ∀ rest, after (closing.toList ++ rest)) (hfails : ∀ rest, part (closing.toList ++ rest) = none)
    (hne : ∀ item ∈ items, text item ≠ "") :
    Takes Anything (Reader.many part closing) (String.join (items.map text) ++ closing) (items.map value) :=
  fun rest hrest => fewer hparts hnext hclosing hfails (by
    have hlength := length_le_join hne
    rw [List.length_append, String.toList_append, List.length_append]
    omega) rest hrest

/-- The text of parts with separators between them. -/
theorem intercalate_cons (separator first : String) (others : List String) :
    separator.intercalate (first :: others) = first ++ String.join (others.map (separator ++ ·)) := by
  induction others generalizing first with
  | nil => simp
  | cons other others ih =>
    rw [String.intercalate_cons_cons, ih, List.map_cons, String.join_cons, String.append_assoc, String.append_assoc]

theorem separated (hparts : ∀ item ∈ items, Takes after part (text item) (value item))
    (hseparator : separator ≠ "") (hnext : ∀ rest, after (separator.toList ++ rest))
    (hclosing : ∀ rest, after (closing.toList ++ rest)) (hfails : ∀ rest, part (closing.toList ++ rest) = none)
    (hfails' : ∀ rest, (do Reader.expect separator; part : Reader α) (closing.toList ++ rest) = none) :
    Takes Anything (Reader.separated part separator closing) (separator.intercalate (items.map text) ++ closing)
      (items.map value) := by
  cases items with
  | nil => exact fun rest hrest => bind_of_some ((skips closing) rest hrest)
  | cons item items =>
    obtain ⟨hitem, hitems⟩ := List.forall_mem_cons.mp hparts
    have hnext' (rest : List Char) (tail : String) : after ((separator ++ tail).toList ++ rest) := by
      rw [String.toList_append, List.append_assoc]
      exact hnext _
    have hmore : Takes Anything (Reader.many (do Reader.expect separator; part) closing)
        (String.join (items.map fun item => separator ++ text item) ++ closing) (items.map value) := by
      refine many (fun other hother => (expect separator).bind (fun _ _ => trivial) (hitems other hother))
        (fun other _ rest => hnext' rest (text other)) hclosing hfails' fun other _ hempty => hseparator ?_
      exact (String.append_eq_empty_iff.mp hempty).1
    rw [List.map_cons, intercalate_cons, List.map_map, String.append_assoc]
    exact part_then hitem hfails (after_join (fun other _ rest => hnext' rest (text other)) hclosing) hmore

end

end Takes

end TensorFuzz.Text
