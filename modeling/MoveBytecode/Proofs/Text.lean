import Mathlib.Data.List.Forall2
import MoveBytecode.Listing.Basic

/-!
# Numerals and lines

Different numbers are written differently in base sixteen. Two texts put together from parts with as
many line breaks each (`Text.Aligned`) can be cut at the same places, so that they are equal exactly if
all their parts are: this is how a difference in one line of a long listing is found again in the whole.
-/

namespace MoveBytecode

namespace Text

/-! ## Numerals -/

/-- The value of a digit in base sixteen. -/
def digitValue (c : Char) : Nat :=
  if c.toNat < 'A'.toNat then c.toNat - '0'.toNat else c.toNat - 'A'.toNat + 10

/-- A digit has its value. -/
theorem digitValue_hexDigit : ∀ n < 16, digitValue (hexDigit n) = n := by
  decide

/-- The number that has these digits in base sixteen, the highest first. -/
def hexValue (digits : List Char) : Nat :=
  digits.foldl (fun value c => 16 * value + digitValue c) 0

/-- The digits of a number have its value. -/
theorem hexValue_hexDigits (n : Nat) : hexValue (hexDigits n) = n := by
  induction n using hexDigits.induct with
  | case1 n hn =>
    rw [hexDigits, if_pos hn]
    simpa [hexValue] using digitValue_hexDigit n hn
  | case2 n hn ih =>
    have hlast := digitValue_hexDigit (n % 16) (Nat.mod_lt n (by omega))
    rw [hexValue] at ih
    rw [hexDigits, if_neg hn, hexValue, List.foldl_append, ih, List.foldl_cons, List.foldl_nil, hlast]
    omega

/-- A character that is no digit occurs in no numeral. -/
theorem notMem_hexDigits {c : Char} (hc : ∀ n < 16, hexDigit n ≠ c) (n : Nat) : c ∉ hexDigits n := by
  induction n using hexDigits.induct with
  | case1 n hn =>
    rw [hexDigits, if_pos hn, List.mem_singleton]
    exact (hc n hn).symm
  | case2 n hn ih =>
    rw [hexDigits, if_neg hn, List.mem_append, List.mem_singleton]
    rintro (h | h)
    · exact ih h
    · exact hc (n % 16) (Nat.mod_lt n (by omega)) h.symm

/-- No digit is a sign. -/
theorem sign_notMem_hexDigits (n : Nat) : '-' ∉ hexDigits n :=
  notMem_hexDigits (by decide) n

/-- The number that is written in base sixteen, after its sign. -/
def readHex : List Char → Int
  | '-' :: digits => -hexValue digits
  | digits => hexValue digits

/-- Only the digits of a negative number stand behind a sign. -/
theorem readHex_hexDigits (n : Nat) : readHex (hexDigits n) = n := by
  unfold readHex
  split
  · rename_i digits hdigits
    have hsign := sign_notMem_hexDigits n
    rw [hdigits] at hsign
    exact absurd List.mem_cons_self hsign
  · rw [hexValue_hexDigits]

/-- A number is read back from its text. -/
theorem readHex_hex (x : Int) : readHex (hex x).toList = x := by
  simp only [hex, padDigits, String.toList_ofList, Nat.zero_sub, List.replicate_zero, List.append_nil,
    signOf]
  split
  · rw [List.cons_append, List.nil_append, readHex, hexValue_hexDigits]
    omega
  · rw [List.nil_append, readHex_hexDigits]
    omega

/-- Different numbers are written differently, as they can be read. -/
theorem hex_inj {x y : Int} (h : hex x = hex y) : x = y := by
  rw [← readHex_hex x, h, readHex_hex]

/-- Of other characters than digits only the sign occurs in a number. -/
theorem notMem_hex {c : Char} (hc : ∀ n < 16, hexDigit n ≠ c) (hsign : c ≠ '-') (x : Int) :
    c ∉ (hex x).toList := by
  have hdigits := notMem_hexDigits hc x.natAbs
  have hsigns : c ∉ signOf x := by
    unfold signOf
    split
    · simpa using hsign
    · simp
  simp [hex, padDigits, hdigits, hsigns]

/-! ## Line breaks -/

/-- How many line breaks a text has. -/
def breaks (text : String) : Nat := text.toList.count '\n'

/-- The line breaks of texts add up. -/
@[simp] theorem breaks_append (s t : String) : breaks (s ++ t) = breaks s + breaks t := by
  simp [breaks]

/-- The text of a number has no line breaks. -/
@[simp] theorem breaks_hex (x : Int) : breaks (hex x) = 0 :=
  List.count_eq_zero_of_not_mem (notMem_hex (by decide) (by decide) x)

/-- Texts in front of a line break are found again if they have as many line breaks of their own. -/
theorem append_break_inj {s t u v : List Char} (hcount : s.count '\n' = t.count '\n')
    (h : s ++ '\n' :: u = t ++ '\n' :: v) : s = t ∧ u = v := by
  induction s generalizing t with
  | nil =>
    cases t with
    | nil => exact ⟨rfl, (List.cons.inj h).2⟩
    | cons c rest =>
      obtain ⟨rfl, -⟩ := List.cons.inj h
      simp at hcount
  | cons c rest ih =>
    cases t with
    | nil =>
      obtain ⟨rfl, -⟩ := List.cons.inj h
      simp at hcount
    | cons d behind =>
      obtain ⟨rfl, hrest⟩ := List.cons.inj h
      simp only [List.count_cons, Nat.add_right_cancel_iff] at hcount
      obtain ⟨rfl, rfl⟩ := ih hcount hrest
      exact ⟨rfl, rfl⟩

/-! ## Aligned texts -/

/-- Two texts with as many line breaks that are equal exactly if `same`. -/
structure Aligned (same : Prop) (s t : String) : Prop where
  breaks_eq : breaks s = breaks t
  eq_iff : s = t ↔ same

namespace Aligned

variable {same : Prop} {s t : String}

/-- A text is aligned with itself. -/
theorem refl (s : String) : Aligned True s s := ⟨rfl, by simp⟩

/-- Whether aligned texts are equal may be said in another way. -/
theorem congr {other : Prop} (h : Aligned same s t) (hiff : same ↔ other) : Aligned other s t :=
  ⟨h.breaks_eq, h.eq_iff.trans hiff⟩

/-- The texts of two numbers are equal iff the numbers are. -/
theorem hex (x y : Int) : Aligned (x = y) (hex x) (hex y) :=
  ⟨by simp, hex_inj, congrArg Text.hex⟩

/-- A text in front of both leaves texts aligned. -/
theorem append_left (front : String) (h : Aligned same s t) :
    Aligned same (front ++ s) (front ++ t) :=
  ⟨by simp [h.breaks_eq], by rw [String.append_right_inj, h.eq_iff]⟩

/-- A text behind both leaves texts aligned. -/
theorem append_right (back : String) (h : Aligned same s t) :
    Aligned same (s ++ back) (t ++ back) :=
  ⟨by simp [h.breaks_eq], by rw [String.append_left_inj, h.eq_iff]⟩

end Aligned

end Text

namespace Listing

/-- What stands for a character of a text that is indented. -/
def indented (margin : String) (c : Char) : List Char :=
  if c = '\n' then '\n' :: margin.toList else [c]

/-- A text with a margin is what stands for its characters, one after the other. -/
theorem toList_withMargin (margin text : String) :
    (withMargin margin text).toList = text.toList.flatMap (indented margin) := by
  have general : ∀ (l : List Char) (done : String),
      (l.foldl (fun done c => if c = '\n' then done ++ "\n" ++ margin else done.push c) done).toList =
        done.toList ++ l.flatMap (indented margin) := by
    intro l
    induction l with
    | nil => simp
    | cons c rest ih =>
      intro done
      rw [List.foldl_cons, ih, List.flatMap_cons, indented]
      split <;> simp
  exact general text.toList ""

/-- Where two indented texts begin with the same, so do the texts. -/
theorem indented_append_inj {margin : String} {c d : Char} {rest behind : List Char}
    (h : indented margin c ++ rest = indented margin d ++ behind) : c = d ∧ rest = behind := by
  unfold indented at h
  split at h <;> split at h <;> rename_i hc hd
  · exact ⟨hc.trans hd.symm, List.append_cancel_left h⟩
  · exact absurd (List.cons.inj h).1.symm hd
  · exact absurd (List.cons.inj h).1 hc
  · exact List.cons.inj h

/-- Different texts are different with a margin. -/
theorem withMargin_inj {margin s t : String} (h : withMargin margin s = withMargin margin t) :
    s = t := by
  have general : ∀ l k : List Char,
      l.flatMap (indented margin) = k.flatMap (indented margin) → l = k := by
    have hne : ∀ c, indented margin c ≠ [] := by
      intro c
      unfold indented
      split <;> simp
    intro l
    induction l with
    | nil => intro k; cases k <;> simp [hne]
    | cons c rest ih =>
      intro k hk
      cases k with
      | nil => simp [hne] at hk
      | cons d behind =>
        obtain ⟨rfl, hrest⟩ := indented_append_inj hk
        rw [ih behind hrest]
  refine String.toList_inj.mp (general _ _ ?_)
  rw [← toList_withMargin, ← toList_withMargin, h]

/-- A margin is added with its own line breaks at every line break of the text. -/
theorem breaks_withMargin (margin text : String) :
    Text.breaks (withMargin margin text) = Text.breaks text * (1 + Text.breaks margin) := by
  simp only [Text.breaks, toList_withMargin]
  induction text.toList with
  | nil => simp
  | cons c rest ih =>
    rw [List.flatMap_cons, List.count_append, ih, List.count_cons, indented]
    split <;> rename_i hc <;> simp [hc, Nat.add_mul, Nat.add_comm]

end Listing

namespace Text

/-- A margin leaves texts aligned. -/
theorem Aligned.withMargin {same : Prop} {s t : String} (margin : String) (h : Aligned same s t) :
    Aligned same (Listing.withMargin margin s) (Listing.withMargin margin t) where
  breaks_eq := by rw [Listing.breaks_withMargin, Listing.breaks_withMargin, h.breaks_eq]
  eq_iff := by
    rw [← h.eq_iff]
    exact ⟨Listing.withMargin_inj, congrArg _⟩

/-- Two lists of as many texts each that are equal exactly if `same`, where texts at the same place
have as many line breaks. -/
structure AllAligned (same : Prop) (ss ts : List String) : Prop where
  map_breaks : ss.map breaks = ts.map breaks
  eq_iff : ss = ts ↔ same

namespace AllAligned

variable {same other : Prop} {s t : String} {ss ts : List String}

/-- No texts are aligned with no texts. -/
theorem nil : AllAligned True [] [] := ⟨rfl, by simp⟩

/-- Lists of texts are aligned if their first texts are and the others are. -/
theorem cons (h : Aligned same s t) (hrest : AllAligned other ss ts) :
    AllAligned (same ∧ other) (s :: ss) (t :: ts) :=
  ⟨by rw [List.map_cons, List.map_cons, h.breaks_eq, hrest.map_breaks],
    by rw [List.cons.injEq, h.eq_iff, hrest.eq_iff]⟩

/-- Whether aligned lists of texts are equal may be said in another way. -/
theorem congr (h : AllAligned same ss ts) (hiff : same ↔ other) : AllAligned other ss ts :=
  ⟨h.map_breaks, h.eq_iff.trans hiff⟩

/-- Lists of texts are aligned if their first parts are and the others are. -/
theorem append {ss' ts' : List String} (h : AllAligned same ss ts) (h' : AllAligned other ss' ts') :
    AllAligned (same ∧ other) (ss ++ ss') (ts ++ ts') := by
  refine ⟨by rw [List.map_append, List.map_append, h.map_breaks, h'.map_breaks], ?_⟩
  have hlength : ss.length = ts.length := by simpa using congrArg List.length h.map_breaks
  rw [List.append_eq_append_iff_of_size_eq_left hlength, h.eq_iff, h'.eq_iff]

/-- The same in front of each. -/
theorem map_append_left (front : String) (h : AllAligned same ss ts) :
    AllAligned same (ss.map (front ++ ·)) (ts.map (front ++ ·)) := by
  have hbreaks (texts : List String) : (texts.map (front ++ ·)).map breaks =
      (texts.map breaks).map (breaks front + ·) := by simp
  refine ⟨by rw [hbreaks, hbreaks, h.map_breaks], ?_⟩
  rw [← h.eq_iff]
  exact (List.map_injective_iff.mpr fun _ _ => (String.append_right_inj front).mp).eq_iff

/-- Texts that are put together with line breaks between them. -/
theorem intercalate (back : String) (h : AllAligned same ss ts) :
    Aligned same (String.intercalate ("\n" ++ back) ss) (String.intercalate ("\n" ++ back) ts) := by
  suffices hall : breaks (String.intercalate ("\n" ++ back) ss) =
      breaks (String.intercalate ("\n" ++ back) ts) ∧
        (String.intercalate ("\n" ++ back) ss = String.intercalate ("\n" ++ back) ts → ss = ts) from
    ⟨hall.1, fun heq => h.eq_iff.mp (hall.2 heq), fun hsame => by rw [h.eq_iff.mpr hsame]⟩
  have hbreaks := h.map_breaks
  clear h
  induction ss generalizing ts with
  | nil =>
    obtain rfl := List.map_eq_nil_iff.mp hbreaks.symm
    exact ⟨rfl, fun _ => rfl⟩
  | cons s rest ih =>
    obtain ⟨t, behind, rfl, ht, hbehind⟩ := List.map_eq_cons_iff.mp hbreaks.symm
    obtain ⟨hcount, hinj⟩ := ih hbehind.symm
    cases rest with
    | nil =>
      obtain rfl := List.map_eq_nil_iff.mp hbehind
      simp [ht]
    | cons u rest =>
      obtain ⟨v, behind, rfl, -, -⟩ := List.map_eq_cons_iff.mp hbehind
      simp only [String.intercalate_cons_cons, breaks_append, ht, hcount, true_and]
      intro heq
      -- The first line break that is not one of the first text's own is found again.
      have hchars := congrArg String.toList heq
      simp only [String.toList_append, List.append_assoc] at hchars
      obtain ⟨hfirst, hrest⟩ := append_break_inj ht.symm hchars
      rw [String.toList_inj.mp hfirst,
        hinj (String.toList_inj.mp (List.append_cancel_left hrest))]

end AllAligned

end Text

end MoveBytecode
