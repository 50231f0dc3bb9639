import Mathlib.Data.Set.Function
import Observing.Proofs.Provenance

/-!
# Places are spelled apart

The places of atoms and steps are spelled with slashes between their parts, and the name of an
observation may hold slashes as well, or look like a place itself.  Still no two places are spelled
alike: the parts behind the name hold no slash, so that a spelling is taken apart from its right end.

* `Uuid.parse?_text`         the text of an identifier is read back;
* `eq_of_append_slash`       a text is told from what stands behind its last slash;
* `AtomKey.text_injective`, `StepKey.text_injective`   the spelling tells the place;
* `AtomKey.apart_iff`, `StepKey.apart_iff`   places have identities of their own as long as their
                             spellings are not hashed to one identifier;
* `places_spelled_apart`     the parts of a place, told from its spelling.
-/

namespace Observing

/-! ## Identifiers -/

namespace Uuid

variable {c : Char} {u : Uuid}

/-- The digits that identifiers are written with. -/
def IsHexDigit (c : Char) : Prop := '0' ≤ c ∧ c ≤ '9' ∨ 'a' ≤ c ∧ c ≤ 'f'

instance (c : Char) : Decidable (IsHexDigit c) := inferInstanceAs (Decidable (_ ∨ _))

theorem isHexDigit_digitChar {n : ℕ} (h : n < 16) : IsHexDigit (Nat.digitChar n) := by
  revert n
  decide

theorem hexValue?_digitChar {n : ℕ} (h : n < 16) : hexValue? (Nat.digitChar n) = some n := by
  revert n
  decide

theorem isHexDigit_of_mem_hexDigits {k n : ℕ} (h : c ∈ hexDigits k n) : IsHexDigit c := by
  induction k generalizing n with
  | zero => exact absurd h List.not_mem_nil
  | succ k ih =>
    rcases List.mem_append.1 h with h | h
    · exact ih h
    · rw [List.mem_singleton.1 h]
      exact isHexDigit_digitChar (Nat.mod_lt n (by decide))

/-- An identifier is written in hexadecimal digits, in lower case, and hyphens. -/
theorem isHexDigit_of_mem_chars (h : c ∈ u.chars) : IsHexDigit c ∨ c = '-' := by
  simp only [chars, List.mem_append, List.mem_cons] at h
  rcases h with (((h | rfl | h) | rfl | h) | rfl | h) | rfl | h
  all_goals first | exact .inr rfl | exact .inl (isHexDigit_of_mem_hexDigits h)

theorem slash_notMem_chars (u : Uuid) : '/' ∉ u.chars := fun h =>
  absurd (isHexDigit_of_mem_chars h) (by decide)

/-- Digits of high places in front of digits of low ones. -/
theorem hexDigits_add (j k n : ℕ) :
    hexDigits j (n / 16 ^ k) ++ hexDigits k n = hexDigits (j + k) n := by
  induction k generalizing n with
  | zero => simp [hexDigits]
  | succ k ih =>
    have hdiv : n / 16 ^ (k + 1) = n / 16 / 16 ^ k := by
      rw [Nat.div_div_eq_div_mul, Nat.pow_succ']
    rw [hdiv, hexDigits, ← List.append_assoc, ih]
    rfl

/-- Digits behind a number that is read already. -/
theorem foldlM_hexDigits (k n m : ℕ) :
    (hexDigits k n).foldlM (fun n c => (hexValue? c).map (16 * n + ·)) m =
      some (m * 16 ^ k + n % 16 ^ k) := by
  induction k generalizing n with
  | zero => simp [hexDigits, Nat.mod_one]
  | succ k ih =>
    have hmod : n % 16 ^ (k + 1) = 16 * (n / 16 % 16 ^ k) + n % 16 := by
      rw [Nat.pow_succ', Nat.mod_mul, Nat.add_comm]
    have hlast := hexValue?_digitChar (n := n % 16) (Nat.mod_lt n (by decide))
    rw [hexDigits, List.foldlM_append, ih, hmod, Nat.pow_succ']
    simp only [Option.bind_eq_bind, Option.bind_some, List.foldlM_cons, List.foldlM_nil, hlast,
      Option.map_some, Option.pure_def, Option.some.injEq]
    rw [Nat.mul_add, Nat.mul_left_comm, Nat.add_assoc]

theorem hexNumber?_hexDigits (k n : ℕ) : hexNumber? (hexDigits k n) = some (n % 16 ^ k) := by
  rw [hexNumber?, foldlM_hexDigits, Nat.zero_mul, Nat.zero_add]

/-- The hyphens between the groups are left out. -/
theorem ofGroups?_append {as bs cs ds es : List Char} (ha : as.length = 8) (hb : bs.length = 4)
    (hc : cs.length = 4) (hd : ds.length = 4) (he : es.length = 12) :
    ofGroups? (as ++ '-' :: bs ++ '-' :: cs ++ '-' :: ds ++ '-' :: es) =
      ofDigits? (as ++ bs ++ cs ++ ds ++ es) := by
  have hcond : (as ++ '-' :: bs ++ '-' :: cs ++ '-' :: ds ++ '-' :: es).length = 36 ∧
      [8, 13, 18, 23].all (fun i =>
        (as ++ '-' :: bs ++ '-' :: cs ++ '-' :: ds ++ '-' :: es)[i]? == some '-') := by
    simp [List.getElem?_append, ha, hb, hc, hd, he]
  rw [ofGroups?, if_pos hcond]
  congr 1
  simp [List.drop_append, List.drop_of_length_le, ha, hb, hc, hd]

/-- The groups, one behind the other, are all the digits. -/
theorem groups_append (n : ℕ) :
    hexDigits 8 (n / 16 ^ 24) ++ hexDigits 4 (n / 16 ^ 20) ++ hexDigits 4 (n / 16 ^ 16) ++
      hexDigits 4 (n / 16 ^ 12) ++ hexDigits 12 n = hexDigits 32 n := by
  have h₁ : hexDigits 4 (n / 16 ^ 12) ++ hexDigits 12 n = hexDigits 16 n := hexDigits_add 4 12 n
  have h₂ : hexDigits 4 (n / 16 ^ 16) ++ hexDigits 16 n = hexDigits 20 n := hexDigits_add 4 16 n
  have h₃ : hexDigits 4 (n / 16 ^ 20) ++ hexDigits 20 n = hexDigits 24 n := hexDigits_add 4 20 n
  have h₄ : hexDigits 8 (n / 16 ^ 24) ++ hexDigits 24 n = hexDigits 32 n := hexDigits_add 8 24 n
  rw [List.append_assoc, h₁, List.append_assoc, h₂, List.append_assoc, h₃, h₄]

/-- The text of an identifier is read back. -/
theorem parse?_text (u : Uuid) : parse? u.text = some u := by
  have hlen : u.text.toList.length = 36 := by
    rw [text, String.toList_ofList, length_chars]
  have hlt : u.value.toNat < 16 ^ 32 := u.value.isLt
  have hdigits : ofGroups? u.chars = ofDigits? (hexDigits 32 u.value.toNat) := by
    rw [chars, ofGroups?_append (length_hexDigits ..) (length_hexDigits ..) (length_hexDigits ..)
      (length_hexDigits ..) (length_hexDigits ..)]
    exact congrArg ofDigits? (groups_append _)
  rw [parse?, if_neg (by omega), if_pos hlen, text, String.toList_ofList, hdigits, ofDigits?,
    if_pos (length_hexDigits 32 _), hexNumber?_hexDigits, Nat.mod_eq_of_lt hlt]
  show some (Uuid.mk (BitVec.ofNat 128 u.value.toNat)) = some u
  rw [BitVec.ofNat_toNat, BitVec.setWidth_eq]

/-- Identifiers are written apart. -/
theorem text_injective : Function.Injective text := fun u v h =>
  Option.some.inj ((parse?_text u).symm.trans ((congrArg parse? h).trans (parse?_text v)))

theorem chars_injective : Function.Injective chars := fun _ _ h =>
  text_injective (congrArg String.ofList h)

theorem toList_text (u : Uuid) : u.text.toList = u.chars := String.toList_ofList

end Uuid

/-! ## Slashes -/

/-- A text is told from what stands behind its last slash. -/
theorem eq_of_append_slash {as bs cs ds : List Char} (hb : '/' ∉ bs) (hd : '/' ∉ ds)
    (h : as ++ '/' :: bs = cs ++ '/' :: ds) : as = cs ∧ bs = ds := by
  -- otherwise what is longer on one side holds the slash of the other
  rcases List.append_eq_append_iff.1 h with ⟨rest, rfl, hrest⟩ | ⟨rest, rfl, hrest⟩
  all_goals
    cases rest with
    | nil => simpa [eq_comm] using hrest
    | cons c rest =>
      rw [List.cons_append, List.cons.injEq] at hrest
      simp [hrest.2] at hb hd

/-! ## Numbers -/

theorem toList_toString (n : ℕ) : (toString n).toList = Nat.toDigits 10 n := by
  rw [Nat.toString_eq_ofList_toDigits, String.toList_ofList]

theorem slash_notMem_toString (n : ℕ) : '/' ∉ (toString n).toList := by
  rw [toList_toString]
  intro h
  exact absurd (Nat.isDigit_of_mem_toDigits (by decide) (by decide) h) (by decide)

theorem toString_injective {m n : ℕ} (h : (toString m).toList = (toString n).toList) : m = n := by
  rw [toList_toString, toList_toString] at h
  have hvalue := congrArg (Nat.ofDigitChars 10 · 0) h
  simpa using hvalue

/-! ## Places of atoms -/

theorem SequenceType.slash_notMem_text (t : SequenceType) : '/' ∉ t.text.toList := by
  cases t <;> decide

namespace AtomKey

variable {keys : List AtomKey}

/-- The name in front of all slashes of a place, or with slashes of its own. -/
def observation : AtomKey → String
  | planned o _ _ | repeated o _ _ => o

def sequence : AtomKey → SequenceType
  | planned _ t _ | repeated _ t _ => t

/-- The word for what is done at a place. -/
def word : AtomKey → String
  | planned _ _ _ => "atom"
  | repeated _ _ _ => "redo"

/-- What stands behind the last slash of a place. -/
def last : AtomKey → List Char
  | planned _ _ n => (toString n).toList
  | repeated _ _ f => f.uuid.chars

theorem toList_text (k : AtomKey) : k.text.toList =
    ((k.observation.toList ++ '/' :: k.sequence.text.toList) ++ '/' :: k.word.toList) ++
      '/' :: k.last := by
  cases k <;> simp [text, observation, sequence, word, last, StepId.text, Uuid.toList_text]

theorem slash_notMem_word (k : AtomKey) : '/' ∉ k.word.toList := by
  cases k <;> simp [word]

theorem slash_notMem_last (k : AtomKey) : '/' ∉ k.last := by
  cases k with
  | planned _ _ n => exact slash_notMem_toString n
  | repeated _ _ f => exact f.uuid.slash_notMem_chars

theorem text_injective : Function.Injective text := by
  intro k l h
  have h := congrArg String.toList h
  rw [toList_text, toList_text] at h
  obtain ⟨h, hlast⟩ := eq_of_append_slash k.slash_notMem_last l.slash_notMem_last h
  obtain ⟨h, hword⟩ := eq_of_append_slash k.slash_notMem_word l.slash_notMem_word h
  obtain ⟨ho, ht⟩ := eq_of_append_slash k.sequence.slash_notMem_text l.sequence.slash_notMem_text h
  have ho : k.observation = l.observation := String.toList_injective ho
  have ht : k.sequence = l.sequence := Named.name_injective (String.toList_injective ht)
  cases k with
  | planned o t n =>
    cases l with
    | planned o' t' n' => exact congr (congr (congrArg planned ho) ht) (toString_injective hlast)
    | repeated => exact absurd hword (by simp [word])
  | repeated o t f =>
    cases l with
    | planned => exact absurd hword (by simp [word])
    | repeated o' t' f' =>
      have hf : f = f' := congrArg StepId.mk (Uuid.chars_injective hlast)
      exact congr (congr (congrArg repeated ho) ht) hf

/-- Places have identities of their own exactly where no two of their spellings have one together. -/
theorem apart_iff : AtomKey.Apart keys ↔ Set.InjOn AtomId.named (text '' {k | k ∈ keys}) := by
  constructor
  · rintro h _ ⟨k, hk, rfl⟩ _ ⟨l, hl, rfl⟩ hid
    rw [h k hk l hl hid]
  · intro h k hk l hl hid
    exact text_injective (h ⟨k, hk, rfl⟩ ⟨l, hl, rfl⟩ hid)

end AtomKey

/-! ## Places of steps -/

namespace StepKey

variable {keys : List StepKey}

theorem toList_planned (a : AtomId) (i : ℕ) :
    (planned a i).text.toList = a.uuid.chars ++ '/' :: (toString i).toList := by
  simp [text, AtomId.text, Uuid.toList_text]

theorem toList_repeated (a : AtomId) (f : StepId) : (repeated a f).text.toList =
    (a.uuid.chars ++ '/' :: "redo".toList) ++ '/' :: f.uuid.chars := by
  simp [text, AtomId.text, StepId.text, Uuid.toList_text]

/-- A planned step and a repetition differ in the number of their slashes. -/
theorem text_planned_ne_repeated (a a' : AtomId) (i : ℕ) (f : StepId) :
    (planned a i).text ≠ (repeated a' f).text := by
  intro h
  have h := congrArg String.toList h
  rw [toList_planned, toList_repeated] at h
  obtain ⟨h, -⟩ := eq_of_append_slash (slash_notMem_toString i) f.uuid.slash_notMem_chars h
  have hslash := a.uuid.slash_notMem_chars
  rw [h] at hslash
  exact hslash (List.mem_append_right _ List.mem_cons_self)

theorem text_injective : Function.Injective text := by
  intro k l h
  cases k with
  | planned a i =>
    cases l with
    | planned a' i' =>
      have h := congrArg String.toList h
      rw [toList_planned, toList_planned] at h
      obtain ⟨ha, hi⟩ := eq_of_append_slash (slash_notMem_toString i) (slash_notMem_toString i') h
      have ha : a = a' := congrArg AtomId.mk (Uuid.chars_injective ha)
      exact congr (congrArg planned ha) (toString_injective hi)
    | repeated a' f' => exact absurd h (text_planned_ne_repeated a a' i f')
  | repeated a f =>
    cases l with
    | planned a' i' => exact absurd h.symm (text_planned_ne_repeated a' a i' f)
    | repeated a' f' =>
      have h := congrArg String.toList h
      rw [toList_repeated, toList_repeated] at h
      obtain ⟨h, hf⟩ := eq_of_append_slash f.uuid.slash_notMem_chars f'.uuid.slash_notMem_chars h
      obtain ⟨ha, -⟩ := eq_of_append_slash (by decide) (by decide) h
      have ha : a = a' := congrArg AtomId.mk (Uuid.chars_injective ha)
      exact congr (congrArg repeated ha) (congrArg StepId.mk (Uuid.chars_injective hf))

theorem apart_iff : StepKey.Apart keys ↔ Set.InjOn StepId.named (text '' {k | k ∈ keys}) := by
  constructor
  · rintro h _ ⟨k, hk, rfl⟩ _ ⟨l, hl, rfl⟩ hid
    rw [h k hk l hl hid]
  · intro h k hk l hl hid
    exact text_injective (h ⟨k, hk, rfl⟩ ⟨l, hl, rfl⟩ hid)

end StepKey

/-- The place of an atom has more slashes than that of a step. -/
theorem AtomKey.text_ne (k : AtomKey) (l : StepKey) : k.text ≠ l.text := by
  intro h
  have h := congrArg String.toList h
  rw [k.toList_text] at h
  cases l with
  | planned a i =>
    rw [StepKey.toList_planned] at h
    obtain ⟨h, -⟩ := eq_of_append_slash k.slash_notMem_last (slash_notMem_toString i) h
    have hslash := a.uuid.slash_notMem_chars
    rw [← h] at hslash
    exact hslash (List.mem_append_right _ List.mem_cons_self)
  | repeated a f =>
    rw [StepKey.toList_repeated] at h
    obtain ⟨h, -⟩ := eq_of_append_slash k.slash_notMem_last f.uuid.slash_notMem_chars h
    obtain ⟨h, -⟩ := eq_of_append_slash k.slash_notMem_word (by decide) h
    have hslash := a.uuid.slash_notMem_chars
    rw [← h] at hslash
    exact hslash (List.mem_append_right _ List.mem_cons_self)

/-- Places are spelled apart.  The spelling of a planned atom tells the observation, whatever its name
is, the sequence and the position; that of a repetition the observation, the sequence and the failed
step; and neither is spelled like the other.  So it is with the places of steps: the spelling tells the
atom, and the index of the step or the failed step.  Nor is a step spelled like an atom. -/
theorem places_spelled_apart :
    (∀ o o' t t' n n', (AtomKey.planned o t n).text = (AtomKey.planned o' t' n').text →
      o = o' ∧ t = t' ∧ n = n') ∧
    (∀ o o' t t' f f', (AtomKey.repeated o t f).text = (AtomKey.repeated o' t' f').text →
      o = o' ∧ t = t' ∧ f = f') ∧
    (∀ o o' t t' n f, (AtomKey.planned o t n).text ≠ (AtomKey.repeated o' t' f).text) ∧
    (∀ a a' i i', (StepKey.planned a i).text = (StepKey.planned a' i').text → a = a' ∧ i = i') ∧
    (∀ a a' f f', (StepKey.repeated a f).text = (StepKey.repeated a' f').text → a = a' ∧ f = f') ∧
    (∀ a a' i f, (StepKey.planned a i).text ≠ (StepKey.repeated a' f).text) ∧
    ∀ (k : AtomKey) (l : StepKey), k.text ≠ l.text := by
  refine ⟨fun o o' t t' n n' h => ?_, fun o o' t t' f f' h => ?_, fun o o' t t' n f h => ?_,
    fun a a' i i' h => ?_, fun a a' f f' h => ?_, StepKey.text_planned_ne_repeated, AtomKey.text_ne⟩
  · exact AtomKey.planned.inj (AtomKey.text_injective h)
  · exact AtomKey.repeated.inj (AtomKey.text_injective h)
  · cases AtomKey.text_injective h
  · exact StepKey.planned.inj (StepKey.text_injective h)
  · exact StepKey.repeated.inj (StepKey.text_injective h)

end Observing
