import SlideDeck.Json.Numeral

/-!
The inside of a string, from behind the opening quote to the closing one. A character beyond the
basic plane may be spelt as an escaped pair of surrogates. Where only the shape of a string counts,
surrogates may stand alone.
-/
namespace SlideDeck.Json

def hexValue? (c : Char) : Option Nat :=
  if '0' ≤ c ∧ c ≤ '9' then some (c.toNat - '0'.toNat)
  else if 'a' ≤ c ∧ c ≤ 'f' then some (c.toNat - 'a'.toNat + 10)
  else if 'A' ≤ c ∧ c ≤ 'F' then some (c.toNat - 'A'.toNat + 10)
  else none

def hexNumber? (digits : List Char) : Option Nat :=
  digits.foldlM (fun n c => (hexValue? c).map (n * 16 + ·)) 0

/-- Four hexadecimal digits. The text has to hold four more bytes before its digits are looked
at. -/
def readHexFour : Reader Nat := fun cs =>
  let digits := cs.take 4
  if (digits.map Char.utf8Size).foldr (· + ·) 0 < 4 then .error .endInString
  else if digits.length < 4 then .error .badEscape
  else match hexNumber? digits with
    | some n => .ok (n, cs.drop 4)
    | none => .error .badEscape

def isLeadingSurrogate (n : Nat) : Bool := 0xD800 ≤ n && n ≤ 0xDBFF

def isTrailingSurrogate (n : Nat) : Bool := 0xDC00 ≤ n && n ≤ 0xDFFF

def pairedChar (leading trailing : Nat) : Char :=
  Char.ofNat ((leading - 0xD800) * 0x400 + (trailing - 0xDC00) + 0x10000)

/-- The escape of the second half of a pair. -/
def readTrailing (leading : Nat) : Reader Char
  | [] => .error .endInString
  | '\\' :: [] => .error .endInString
  | '\\' :: 'u' :: rest => do
    let (n, rest) ← readHexFour rest
    if isTrailingSurrogate n then .ok (pairedChar leading n, rest) else .error .loneSurrogate
  | _ => .error .surrogateUnpaired

/-- A character given by number. When surrogates need not be paired, one that stands alone is
read as the replacement character. -/
def readNumbered (paired : Bool) : Reader Char := fun cs => do
  let (n, rest) ← readHexFour cs
  if isLeadingSurrogate n then
    if paired then readTrailing n rest else .ok ('\uFFFD', rest)
  else if isTrailingSurrogate n then
    if paired then .error .loneSurrogate else .ok ('\uFFFD', rest)
  else .ok (Char.ofNat n, rest)

def readEscape (paired : Bool) : Reader Char
  | [] => .error .endInString
  | '"' :: rest => .ok ('"', rest)
  | '\\' :: rest => .ok ('\\', rest)
  | '/' :: rest => .ok ('/', rest)
  | 'b' :: rest => .ok ('\x08', rest)
  | 'f' :: rest => .ok ('\x0c', rest)
  | 'n' :: rest => .ok ('\n', rest)
  | 'r' :: rest => .ok ('\r', rest)
  | 't' :: rest => .ok ('\t', rest)
  | 'u' :: rest => readNumbered paired rest
  | _ => .error .badEscape

theorem length_of_readHexFour {cs rest : List Char} {n : Nat}
    (h : readHexFour cs = .ok (n, rest)) : rest.length ≤ cs.length := by
  simp only [readHexFour] at h
  split at h
  · simp at h
  · split at h
    · simp at h
    · split at h
      · simp only [Except.ok.injEq, Prod.mk.injEq] at h
        rw [← h.2, List.length_drop]
        omega
      · simp at h

theorem length_of_readTrailing {leading : Nat} {cs rest : List Char} {c : Char}
    (h : readTrailing leading cs = .ok (c, rest)) : rest.length ≤ cs.length := by
  unfold readTrailing at h
  split at h
  · simp at h
  · simp at h
  · next cs' =>
    cases hn : readHexFour cs' with
    | error e => simp [hn, bind, Except.bind] at h
    | ok p =>
      obtain ⟨n, r⟩ := p
      have hl := length_of_readHexFour hn
      simp only [hn, bind, Except.bind] at h
      split at h
      · simp only [Except.ok.injEq, Prod.mk.injEq] at h
        rw [← h.2]
        simp only [List.length_cons]
        omega
      · simp at h
  · simp at h

theorem length_of_readNumbered {paired : Bool} {cs rest : List Char} {c : Char}
    (h : readNumbered paired cs = .ok (c, rest)) : rest.length ≤ cs.length := by
  cases hn : readHexFour cs with
  | error e => simp [readNumbered, hn, bind, Except.bind] at h
  | ok p =>
    obtain ⟨n, r⟩ := p
    have hl := length_of_readHexFour hn
    simp only [readNumbered, hn, bind, Except.bind] at h
    split at h
    · cases paired with
      | false => simp at h; rw [← h.2]; exact hl
      | true => exact Nat.le_trans (length_of_readTrailing h) hl
    · split at h
      · cases paired with
        | false => simp at h; rw [← h.2]; exact hl
        | true => simp at h
      · simp at h; rw [← h.2]; exact hl

/-- An escape takes at least one character of the text. -/
theorem length_of_readEscape {paired : Bool} {cs rest : List Char} {c : Char}
    (h : readEscape paired cs = .ok (c, rest)) : rest.length < cs.length := by
  unfold readEscape at h
  split at h <;> first
    | (simp only [Except.ok.injEq, Prod.mk.injEq] at h; rw [← h.2]; simp)
    | exact Nat.lt_succ_of_le (length_of_readNumbered h)
    | simp at h

/-- The characters of a string, read from behind its opening quote. -/
def readStringBody (paired : Bool) : List Char → Except Fault (List Char × List Char)
  | [] => .error .endInString
  | c :: cs =>
    if c = '"' then .ok ([], cs)
    else if c = '\\' then
      match h : readEscape paired cs with
      | .error e => .error e
      | .ok (d, rest) =>
        have := length_of_readEscape h
        match readStringBody paired rest with
        | .error e => .error e
        | .ok (ds, rest) => .ok (d :: ds, rest)
    else if c.toNat < 0x20 then .error .controlInString
    else
      match readStringBody paired cs with
      | .error e => .error e
      | .ok (ds, rest) => .ok (c :: ds, rest)
termination_by cs => cs.length
decreasing_by all_goals simp only [List.length_cons]; omega

/-- A string, read from behind its opening quote. -/
def readString : Reader String := fun cs => do
  let (body, rest) ← readStringBody true cs
  .ok (String.ofList body, rest)

end SlideDeck.Json
