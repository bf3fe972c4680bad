import ReferralForest.Binary.Stored
import ReferralForest.Document.Forms
import ReferralForest.Proofs.Fraction.Rational
import ReferralForest.Proofs.Fraction.Words

/-!
# Where Fractions come from

A fraction is made of two given parts, of hundredths or of thousandths; it is read from stored bytes or from a
document, where its parts need not be in lowest terms; or it is the sum of two others. An *origin* is any
composition of these. It says which number the fraction has to be, in rational arithmetic and without any
reducing, and it can be carried out in two ways: with fractions, and with nothing but words.

Both ways give the same, and what they give is the number in lowest terms. As there is one way only to write a
number in lowest terms, fractions are the same words just if they are the same number, and to compare them by
their cross products is to compare the numbers.

## Main definitions

* `Origin` — how a fraction comes about.
* `Origin.fraction?`, `Origin.words?` — what comes of it, as a fraction and in words.
* `Origin.value` — the number it stands for.

## Main statements

* `Origin.words?_eq` — both ways give the same.
* `Origin.value_of_fraction?` — what comes of an origin is the number it stands for.
* `compare_eq_compare_value` — fractions are ordered as their numbers are.
* `Origin.words_canonical` — fractions of any origin are in lowest terms and are compared exactly.
-/

namespace ReferralForest.Fraction

open DoubleWord

variable {a b f : Fraction}

/-! ### Numbers of fractions -/

/-- What is made of two parts is their quotient. -/
theorem value_of_ofParts {num den : UInt64} (h : (ofParts num den).toOption = some f) :
    f.value = (num.toNat : ℚ) / den.toNat := by
  rw [ofParts] at h
  split at h
  next => contradiction
  next hden =>
      obtain rfl := Option.some.inj h
      exact value_ofNonzero hden

/-- The number that two words stand for. -/
def Words.value (w : Words) : ℚ := (w.num.toNat : ℚ) / w.den.toNat

/-- The words of a fraction stand for its number. -/
@[simp] theorem value_words (f : Fraction) : f.words.value = f.value := by
  rw [Words.value, toNat_num_words, toNat_den_words, Fraction.value]

/-- **Fractions are ordered as their numbers are.** -/
theorem compare_eq_compare_value (a b : Fraction) : compare a b = compare a.value b.value := by
  rcases lt_trichotomy a.value b.value with hlt | heq | hgt
  · rw [compare_lt_iff_lt.mpr hlt]
    exact Nat.compare_eq_lt.mpr (lt_iff.mpr hlt)
  · rw [compare_eq_iff_eq.mpr heq, value_injective heq]
    exact Nat.compare_eq_eq.mpr rfl
  · rw [compare_gt_iff_gt.mpr hgt]
    exact Nat.compare_eq_gt.mpr (lt_iff.mpr hgt)

/-- Fractions compare equal just if they are equal. -/
theorem compare_eq_eq_iff : compare a b = .eq ↔ a = b := by
  rw [compare_eq_compare_value, compare_eq_iff_eq, value_injective.eq_iff]

/-! ### Origins -/

/-- **How a fraction comes about.** -/
inductive Origin where
  /-- Two given parts. -/
  | parts (num den : UInt64)
  /-- So many hundredths. -/
  | percent (n : UInt64)
  /-- So many thousandths. -/
  | permille (n : UInt64)
  /-- What is stored at the front of a byte string. -/
  | stored (bytes : List UInt8)
  /-- What stands in a document. -/
  | written (document : Document)
  /-- A sum. -/
  | sum (first second : Origin)

namespace Origin

/-- The two parts at the front of a byte string, as they stand there. -/
def storedParts? (bytes : List UInt8) : Option (UInt64 × UInt64) :=
  ((Binary.word64.followedBy Binary.word64).read bytes).toOption.map (·.1)

/-- The two parts in a document, as they stand there. -/
def writtenParts? (document : Document) : Option (UInt64 × UInt64) :=
  ((Fields.required "num" Form.word64).and (.required "den" Form.word64)).object.read document

/-- **What comes of an origin**, if anything does. -/
def fraction? : Origin → Option Fraction
  | parts num den => (ofParts num den).toOption
  | percent n => some (Fraction.percent n)
  | permille n => some (Fraction.permille n)
  | stored bytes => (Binary.fraction.read bytes).toOption.map (·.1)
  | written document => Form.fraction.read document
  | sum first second => do (← first.fraction?).add? (← second.fraction?)

/-- **What comes of an origin in words.** -/
def words? : Origin → Option Words
  | parts num den => Words.ofParts? num den
  | percent n => some (Words.percent n)
  | permille n => some (Words.permille n)
  | stored bytes => (storedParts? bytes).bind fun (num, den) => Words.ofParts? num den
  | written document => (writtenParts? document).bind fun (num, den) => Words.ofParts? num den
  | sum first second => do (← first.words?).add? (← second.words?)

/-- **The number an origin stands for**: the quotient of the parts that are given, or the sum of both numbers. -/
def value : Origin → ℚ
  | parts num den => (num.toNat : ℚ) / den.toNat
  | percent n => (n.toNat : ℚ) / 100
  | permille n => (n.toNat : ℚ) / 1000
  | stored bytes => ((storedParts? bytes).map fun (num, den) => (num.toNat : ℚ) / den.toNat).getD 0
  | written document =>
    ((writtenParts? document).map fun (num, den) => (num.toNat : ℚ) / den.toNat).getD 0
  | sum first second => first.value + second.value

/-- Stored parts are given parts. -/
theorem fraction?_stored (bytes : List UInt8) : (stored bytes).fraction? =
    (storedParts? bytes).bind fun (num, den) => (ofParts num den).toOption := by
  simp only [fraction?, storedParts?, Binary.fraction, Binary.Format.checked]
  cases (Binary.word64.followedBy Binary.word64).read bytes with
  | error fault => rfl
  | ok found =>
      obtain ⟨⟨num, den⟩, rest⟩ := found
      change (((ofParts num den).mapError Binary.Fault.fraction).map fun f => (f, rest)).toOption.map _ =
        (ofParts num den).toOption
      cases ofParts num den <;> rfl

/-- Written parts are given parts. -/
theorem fraction?_written (document : Document) : (written document).fraction? =
    (writtenParts? document).bind fun (num, den) => (ofParts num den).toOption := rfl

/-- **Carried out in words**, an origin gives the words of the fraction that comes of it. -/
theorem words?_eq (o : Origin) : o.words? = o.fraction?.map words := by
  induction o with
  | parts num den => exact Words.ofParts?_eq num den
  | percent n => exact congrArg some (Words.percent_eq n)
  | permille n => exact congrArg some (Words.permille_eq n)
  | stored bytes =>
      rw [fraction?_stored, words?, Option.map_bind]
      exact congrArg _ (funext fun p => Words.ofParts?_eq p.1 p.2)
  | written document =>
      rw [fraction?_written, words?, Option.map_bind]
      exact congrArg _ (funext fun p => Words.ofParts?_eq p.1 p.2)
  | sum first second ihFirst ihSecond =>
      rw [words?, fraction?, ihFirst, ihSecond]
      cases first.fraction? with
      | none => rfl
      | some a =>
          cases second.fraction? with
          | none => rfl
          | some b => exact Words.add?_eq a b

/-- **What comes of an origin is the number it stands for.** -/
theorem value_of_fraction? {o : Origin} (h : o.fraction? = some f) : f.value = o.value := by
  induction o generalizing f with
  | parts num den => exact value_of_ofParts h
  | percent n =>
      obtain rfl := Option.some.inj h
      exact value_ofNonzero _
  | permille n =>
      obtain rfl := Option.some.inj h
      exact value_ofNonzero _
  | stored bytes =>
      rw [fraction?_stored] at h
      obtain ⟨p, hparts, hfraction⟩ := Option.bind_eq_some_iff.mp h
      rw [value, hparts]
      exact value_of_ofParts hfraction
  | written document =>
      rw [fraction?_written] at h
      obtain ⟨p, hparts, hfraction⟩ := Option.bind_eq_some_iff.mp h
      rw [value, hparts]
      exact value_of_ofParts hfraction
  | sum first second ihFirst ihSecond =>
      obtain ⟨a, hfirst, hrest⟩ := Option.bind_eq_some_iff.mp h
      obtain ⟨b, hsecond, hsum⟩ := Option.bind_eq_some_iff.mp hrest
      rw [(add?_eq_some_iff.mp hsum).2, ihFirst hfirst, ihSecond hsecond, value]

/-- Words of any origin are those of a fraction. -/
theorem exists_fraction?_of_words? {o : Origin} {w : Words} (h : o.words? = some w) :
    ∃ f, o.fraction? = some f ∧ w = f.words := by
  rw [words?_eq] at h
  obtain ⟨f, hfraction, hwords⟩ := Option.map_eq_some_iff.mp h
  exact ⟨f, hfraction, hwords.symm⟩

end Origin

/-- **Fractions are canonical.** Whatever a fraction is made of, in words it is the same as in numbers: it is the
number its origin stands for, in lowest terms. Parts of one word each lose nothing when they are reduced as
double words and cut down again. So two fractions compare equal just if they are equal, that is if their words
are the same, that is if their numbers are; and they are compared as their numbers are, by cross products that
do not leave the range of a double word. -/
theorem Origin.words_canonical :
    (∀ o : Origin, o.words? = o.fraction?.map words) ∧
    (∀ (o : Origin) (w : Words), o.words? = some w →
      1 ≤ w.den.toNat ∧ w.num.toNat.gcd w.den.toNat = 1 ∧ w.value = o.value) ∧
    (∀ n d : UInt64,
      let common := divisor (ofWord n) (ofWord d)
      ofWord (low (ofWord n / common)) = ofWord n / common ∧
        ofWord (low (ofWord d / common)) = ofWord d / common) ∧
    ∀ a b : Fraction,
      ((a == b) = true ↔ compare a b = .eq) ∧ (compare a b = .eq ↔ a.words = b.words) ∧
      (a.words = b.words ↔ a.value = b.value) ∧ compare a b = compare a.value b.value ∧
      Words.compare? a.words b.words = some (compare a b) := by
  refine ⟨words?_eq, fun o w h => ?_, fun n d => ?_, fun a b => ⟨?_, ?_, ?_, ?_, ?_⟩⟩
  · obtain ⟨f, hfraction, rfl⟩ := exists_fraction?_of_words? h
    rw [toNat_num_words, toNat_den_words, value_words]
    exact ⟨f.den_pos, f.coprime, value_of_fraction? hfraction⟩
  · obtain ⟨hnum, hden⟩ := Words.div_divisor_lt n d
    exact ⟨ofWord_low hnum, ofWord_low hden⟩
  · rw [beq_iff_eq, compare_eq_eq_iff]
  · rw [compare_eq_eq_iff, words_inj]
  · rw [words_inj, value_injective.eq_iff]
  · exact compare_eq_compare_value a b
  · exact Words.compare?_eq a b

/-- A quarter from bytes, a sixth from a document, and twenty-five hundredths, fifty thousandths and nothing. -/
def Origin.mixed : Origin :=
  .sum (.sum (.stored [2, 0, 0, 0, 0, 0, 0, 0, 8, 0, 0, 0, 0, 0, 0, 0])
      (.written (.object [("den", .integer 12), ("num", .integer 2)])))
    (.sum (.percent 25) (.sum (.permille 50) (.parts 0 7)))

/-- Added up, they are forty-three sixtieths. -/
theorem Origin.words_canonical_mixed :
    mixed.words? = some ⟨43, 60⟩ ∧ 1 ≤ (60 : UInt64).toNat ∧
      (43 : UInt64).toNat.gcd (60 : UInt64).toNat = 1 ∧ (Words.mk 43 60).value = mixed.value := by
  have hwords : mixed.words? = some ⟨43, 60⟩ := by
    rw [words?_eq]
    decide +kernel
  exact ⟨hwords, words_canonical.2.1 mixed ⟨43, 60⟩ hwords⟩

end ReferralForest.Fraction
