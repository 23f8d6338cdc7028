import HttpContext.Message.Chunk
/-!
Reading chunks back. What was written in chunks is read off the front of the bytes whatever follows
it, and what is read does not change when more bytes come; so a body of chunks that breaks off
anywhere before its end cannot be read at all.
-/
namespace HttpContext

namespace Bytes

/-- A line ends at its first line break. -/
theorem cutAt?_crlf {line : Bytes} (h : 13 ∉ line) (rest : Bytes) :
    cutAt? crlf (line ++ crlf ++ rest) = some (line, rest) := by
  induction line with
  | nil => rfl
  | cons b line ih =>
    have hb : b ≠ 13 := fun he => h (he ▸ List.mem_cons_self)
    have hno : crlf.isPrefixOf (b :: (line ++ crlf ++ rest)) = false := by
      simp [crlf, List.isPrefixOf, Ne.symm hb]
    simp only [List.cons_append, cutAt?, hno, Bool.false_eq_true, ↓reduceIte,
      ih fun hm => h (List.mem_cons_of_mem b hm), Option.map_some]

end Bytes

namespace Chunk

/-! ### The size -/

theorem hexDigit?_digitChar {d : Nat} (h : d < 16) :
    (Bytes.hexDigit? (Nat.digitChar d).toNat.toUInt8).map UInt8.toNat = some d := by
  decide +revert

theorem sizeDigits_of_lt {n : Nat} (h : n < 16) :
    sizeDigits n = [(Nat.digitChar n).toNat.toUInt8] := by
  rw [sizeDigits, Nat.toDigits_of_lt_base h]
  rfl

theorem sizeDigits_of_le {n : Nat} (h : 16 ≤ n) :
    sizeDigits n = sizeDigits (n / 16) ++ [(Nat.digitChar (n % 16)).toNat.toUInt8] := by
  rw [sizeDigits, Nat.toDigits_of_base_le (by decide) h, List.map_append]
  rfl

theorem sizeDigits_ne_nil (n : Nat) : sizeDigits n ≠ [] := by
  intro h
  exact Nat.toDigits_ne_nil (List.map_eq_nil_iff.1 h)

/-- No digit of a size is a line break. -/
theorem not_mem_sizeDigits (n : Nat) : 13 ∉ sizeDigits n := by
  have hdigit : ∀ d < 16, (13 : UInt8) ≠ (Nat.digitChar d).toNat.toUInt8 := by decide
  induction n using Nat.strongRecOn with
  | ind n ih =>
    by_cases h : n < 16
    · rw [sizeDigits_of_lt h, List.mem_singleton]
      exact hdigit n h
    · rw [sizeDigits_of_le (Nat.le_of_not_lt h), List.mem_append, List.mem_singleton]
      rintro (hm | hm)
      · exact ih (n / 16) (by omega) hm
      · exact hdigit (n % 16) (by omega) hm

/-- One more digit of a size. -/
theorem add_hexDigit? {d : Nat} (h : d < 16) (front : Nat) :
    (Bytes.hexDigit? (Nat.digitChar d).toNat.toUInt8).map (front * 16 + ·.toNat)
      = some (front * 16 + d) := by
  obtain ⟨digit, hdigit, hd⟩ := Option.map_eq_some_iff.1 (hexDigit?_digitChar h)
  rw [hdigit, Option.map_some, hd]

/-- A size is read back from its digits. -/
theorem size?_sizeDigits (n : Nat) : size? (sizeDigits n) = some n := by
  have hfold : (sizeDigits n).foldlM (fun n b => (Bytes.hexDigit? b).map (n * 16 + ·.toNat)) 0
      = some n := by
    -- all digits but the last are those of a sixteenth
    induction n using Nat.strongRecOn with
    | ind n ih =>
      by_cases h : n < 16
      · rw [sizeDigits_of_lt h, List.foldlM_cons, add_hexDigit? h, Nat.zero_mul, Nat.zero_add]
        rfl
      · have hdigit : n % 16 < 16 := Nat.mod_lt n (by decide)
        rw [sizeDigits_of_le (Nat.le_of_not_lt h), List.foldlM_append, ih (n / 16) (by omega)]
        rw [Option.bind_eq_bind, Option.bind_some, List.foldlM_cons, add_hexDigit? hdigit,
          Nat.div_add_mod']
        rfl
  rw [size?, List.isEmpty_eq_false_iff.2 (sizeDigits_ne_nil n), hfold]
  rfl

/-! ### Chunks read back -/

/-- A chunk in front is a line with the size, as many bytes, and a line break. -/
theorem next?_eq_some_iff {bytes data rest : Bytes} :
    next? bytes = some (data, rest) ↔
      ∃ digits, Bytes.cutAt? Bytes.crlf bytes = some (digits, data ++ Bytes.crlf ++ rest)
        ∧ size? digits = some data.length := by
  unfold next?
  simp only [Option.bind_eq_bind, Option.bind_eq_some_iff]
  constructor
  · rintro ⟨⟨digits, tail⟩, hcut, size, hsize, hchunk⟩
    split at hchunk
    · rename_i hcond
      simp only [Bool.and_eq_true, decide_eq_true_eq] at hcond
      obtain ⟨rfl, rfl⟩ := Prod.mk.inj (Option.some.inj hchunk)
      obtain ⟨rest, hrest⟩ := List.isPrefixOf_iff_prefix.1 hcond.2
      have hdrop : (tail.drop size).drop 2 = rest := by
        rw [← hrest]
        rfl
      refine ⟨digits, ?_, ?_⟩
      · rw [hcut, hdrop, List.append_assoc, hrest, List.take_append_drop]
      · rw [hsize, List.length_take_of_le hcond.1]
    · cases hchunk
  · rintro ⟨digits, hcut, hsize⟩
    refine ⟨(digits, data ++ Bytes.crlf ++ rest), hcut, data.length, hsize, ?_⟩
    have hafter : (data ++ Bytes.crlf ++ rest).drop data.length = Bytes.crlf ++ rest := by
      rw [List.append_assoc, List.drop_left]
    have hdata : (data ++ Bytes.crlf ++ rest).take data.length = data := by
      rw [List.append_assoc, List.take_left]
    have hlength : data.length ≤ (data ++ Bytes.crlf ++ rest).length := by
      simp only [List.length_append]
      omega
    have hbreak : Bytes.crlf.isPrefixOf (Bytes.crlf ++ rest) = true :=
      List.isPrefixOf_iff_prefix.2 (List.prefix_append _ _)
    simp only [hafter, hdata, hlength, hbreak, decide_true, Bool.and_self, ↓reduceIte]
    rfl

/-- The chunk in front is read whole, whatever follows it. -/
theorem next?_encode_append {data : Bytes} (h : data ≠ []) (rest : Bytes) :
    next? (encode data ++ rest) = some (data, rest) := by
  refine next?_eq_some_iff.2 ⟨sizeDigits data.length, ?_, size?_sizeDigits data.length⟩
  rw [encode, List.isEmpty_eq_false_iff.2 h, ← Bytes.cutAt?_crlf (not_mem_sizeDigits data.length)]
  simp only [Bool.false_eq_true, ↓reduceIte, List.append_assoc]

theorem next?_last_append (rest : Bytes) : next? (last ++ rest) = some ([], rest) :=
  next?_eq_some_iff.2 ⟨[48], rfl, rfl⟩

/-- What is read of a chunk stays the same when more bytes come. -/
theorem next?_append {bytes data rest : Bytes} (h : next? bytes = some (data, rest))
    (more : Bytes) : next? (bytes ++ more) = some (data, rest ++ more) := by
  obtain ⟨digits, hcut, hsize⟩ := next?_eq_some_iff.1 h
  refine next?_eq_some_iff.2 ⟨digits, ?_, hsize⟩
  rw [Bytes.cutAt?_append hcut more, List.append_assoc _ rest more]

/-! ### Bodies read back -/

theorem decode?_eq (bytes : Bytes) :
    decode? bytes =
      match next? bytes with
      | none => none
      | some ([], rest) => some ([], rest)
      | some (b :: data, rest) => (decode? rest).map fun (more, rest) => (b :: data ++ more, rest) := by
  rw [decode?]
  split <;> simp only [*]

/-- Chunks in front of a body add their data to what is read of it. -/
theorem decode?_flatMap_encode_append (pieces : List Bytes) (bytes : Bytes) :
    decode? (pieces.flatMap encode ++ bytes)
      = (decode? bytes).map fun (data, rest) => (pieces.flatten ++ data, rest) := by
  induction pieces with
  | nil => simp
  | cons piece pieces ih =>
    rw [List.flatMap_cons, List.append_assoc, List.flatten_cons]
    cases piece with
    | nil => simpa using ih
    | cons b piece =>
      rw [decode?_eq, next?_encode_append (List.cons_ne_nil b piece)]
      simp [ih, Function.comp_def]

/-- A body that was written in chunks is read back, whatever follows its last chunk. -/
theorem decode?_chunks (pieces : List Bytes) (rest : Bytes) :
    decode? (pieces.flatMap encode ++ last ++ rest) = some (pieces.flatten, rest) := by
  have hlast : decode? (last ++ rest) = some ([], rest) := by
    rw [decode?_eq, next?_last_append]
  rw [List.append_assoc, decode?_flatMap_encode_append, hlast]
  simp

/-- The bytes are a chunked body: they are read to their end, which is that of a last chunk. -/
def IsBody (bytes : Bytes) : Prop := ∃ data, decode? bytes = some (data, [])

theorem isBody_last : IsBody last := by
  refine ⟨[], ?_⟩
  have hlast := decode?_chunks [] []
  rwa [List.append_nil] at hlast

/-- Behind chunks, a body is wanted to make them one. -/
theorem isBody_flatMap_encode_append (pieces : List Bytes) (bytes : Bytes) :
    IsBody (pieces.flatMap encode ++ bytes) ↔ IsBody bytes := by
  unfold IsBody
  rw [decode?_flatMap_encode_append]
  constructor
  · rintro ⟨data, hd⟩
    obtain ⟨⟨more, rest⟩, hread, he⟩ := Option.map_eq_some_iff.1 hd
    obtain ⟨_, rfl⟩ := Prod.mk.inj he
    exact ⟨more, hread⟩
  · rintro ⟨data, hd⟩
    exact ⟨pieces.flatten ++ data, by rw [hd]; rfl⟩

/-- What is read of a body stays the same when more bytes come. -/
theorem decode?_append {bytes data rest : Bytes} (h : decode? bytes = some (data, rest))
    (more : Bytes) : decode? (bytes ++ more) = some (data, rest ++ more) := by
  fun_induction decode? bytes generalizing data rest with
  | case1 bytes hn => cases h
  | case2 bytes left hn =>
    obtain ⟨rfl, rfl⟩ := Prod.mk.inj (Option.some.inj h)
    rw [decode?_eq, next?_append hn]
  | case3 bytes b chunk left hn ih =>
    obtain ⟨⟨tail, last⟩, hd, he⟩ := Option.map_eq_some_iff.1 h
    obtain ⟨rfl, rfl⟩ := Prod.mk.inj he
    rw [decode?_eq, next?_append hn]
    simp only [ih hd, Option.map_some]

/-- A body that breaks off before the end of its last chunk cannot be read. -/
theorem decode?_of_prefix {pieces : List Bytes} {bytes : Bytes}
    (hp : bytes <+: pieces.flatMap encode ++ last) (hne : bytes ≠ pieces.flatMap encode ++ last) :
    decode? bytes = none := by
  obtain ⟨missing, hmissing⟩ := hp
  cases hd : decode? bytes with
  | none => rfl
  | some read =>
    -- with the missing bytes the same would be read, and they would be left over
    obtain ⟨data, rest⟩ := read
    have hwhole := decode?_chunks pieces []
    rw [List.append_nil, ← hmissing, decode?_append hd missing] at hwhole
    have hnone : rest ++ missing = [] := congrArg Prod.snd (Option.some.inj hwhole)
    have hnil : missing = [] := (List.append_eq_nil_iff.1 hnone).2
    rw [hnil, List.append_nil] at hmissing
    exact absurd hmissing hne

end Chunk

end HttpContext
