import Mathlib.Tactic.Ring
import ShaderMicrocode.Proofs.Packing
import ShaderMicrocode.Session
/-!
# Dumps

A host loads four bytes in its own order and turns the dword around if the dump is in the other order. The bytes of a
dump and the dwords of its shader determine each other, whatever the host.
-/
namespace ShaderMicrocode

namespace ByteOrder

/-- The dword with its bytes the other way round. -/
def swap (w : UInt32) : UInt32 :=
  big.word w.toUInt8 (w >>> 8).toUInt8 (w >>> 16).toUInt8 (w >>> 24).toUInt8

/-- The dword that a dump in `order` means by four bytes that the host has loaded as `w`. -/
def ofHost (host order : ByteOrder) (w : UInt32) : UInt32 :=
  if host = order then w else swap w

/-- The dwords of a dump as a host loads them. Bytes behind the last full dword are dropped. -/
def loadWords (host order : ByteOrder) : List UInt8 → List UInt32
  | a :: b :: c :: d :: rest => host.ofHost order (host.word a b c d) :: loadWords host order rest
  | _ => []

/-- The dump with every four bytes the other way round. -/
def reverseGroups : List UInt8 → List UInt8
  | a :: b :: c :: d :: rest => d :: c :: b :: a :: reverseGroups rest
  | rest => rest

/-! A dword and its four bytes. -/

private theorem word_big (a b c d : UInt8) : big.word a b c d = little.word d c b a := rfl

/-- A byte above the bits of a dword counts for as much as its place says. -/
private theorem toNat_or_byte {k : Nat} {s low : UInt32} (hs : s.toNat = k) (hk : k + 8 ≤ 32) (hlow : low.toNat < 2 ^ k)
    (b : UInt8) : (low ||| b.toUInt32 <<< s).toNat = low.toNat + 2 ^ k * b.toNat := by
  have hroom : 2 ^ 8 ≤ 2 ^ (32 - k) := Nat.pow_le_pow_right Nat.zero_lt_two (by omega)
  have hb : b.toUInt32.toNat < 2 ^ (32 - k) := Nat.lt_of_lt_of_le b.toNat_lt hroom
  rw [UInt32.or_comm, toNat_join hs (by omega) hlow, Nat.mod_eq_of_lt hb, UInt8.toNat_toUInt32]
  ring

private theorem toNat_word_little (a b c d : UInt8) :
    (little.word a b c d).toNat = a.toNat + 2 ^ 8 * b.toNat + 2 ^ 16 * c.toNat + 2 ^ 24 * d.toNat := by
  have ha : a.toUInt32.toNat < 2 ^ 8 := a.toNat_lt
  have hb : b.toNat < 2 ^ 8 := b.toNat_lt
  have hc : c.toNat < 2 ^ 8 := c.toNat_lt
  have hab := toNat_or_byte (k := 8) (s := 8) rfl (by decide) ha b
  have habc := toNat_or_byte (k := 16) (s := 16) rfl (by decide) (by rw [hab]; omega) c
  have habcd := toNat_or_byte (k := 24) (s := 24) rfl (by decide) (by rw [habc, hab]; omega) d
  rw [word, habcd, habc, hab, UInt8.toNat_toUInt32]

private theorem toNat_byte {k : Nat} {s : UInt32} (hs : s.toNat = k) (hk : k < 32) (w : UInt32) :
    (w >>> s).toUInt8.toNat = w.toNat / 2 ^ k % 2 ^ 8 := by
  rw [UInt32.toNat_toUInt8, UInt32.toNat_shiftRight, hs, Nat.mod_eq_of_lt hk, Nat.shiftRight_eq_div_pow]

private theorem bytes_word_little (a b c d : UInt8) : little.bytes (little.word a b c d) = [a, b, c, d] := by
  have ha := a.toNat_lt
  have hb := b.toNat_lt
  have hc := c.toNat_lt
  have hd := d.toNat_lt
  have hword := toNat_word_little a b c d
  have h8 := toNat_byte (k := 8) (s := 8) rfl (by decide) (little.word a b c d)
  have h16 := toNat_byte (k := 16) (s := 16) rfl (by decide) (little.word a b c d)
  have h24 := toNat_byte (k := 24) (s := 24) rfl (by decide) (little.word a b c d)
  simp only [bytes, List.cons.injEq, ← UInt8.toNat_inj, UInt32.toNat_toUInt8, h8, h16, h24, and_true]
  omega

private theorem word_bytes_little (w : UInt32) :
    little.word w.toUInt8 (w >>> 8).toUInt8 (w >>> 16).toUInt8 (w >>> 24).toUInt8 = w := by
  have hw := w.toNat_lt
  have h8 := toNat_byte (k := 8) (s := 8) rfl (by decide) w
  have h16 := toNat_byte (k := 16) (s := 16) rfl (by decide) w
  have h24 := toNat_byte (k := 24) (s := 24) rfl (by decide) w
  rw [← UInt32.toNat_inj, toNat_word_little, UInt32.toNat_toUInt8, h8, h16, h24]
  omega

private theorem bytes_big (w : UInt32) : big.bytes w = (little.bytes w).reverse := rfl

theorem bytes_word (order : ByteOrder) (a b c d : UInt8) : order.bytes (order.word a b c d) = [a, b, c, d] := by
  cases order with
  | little => exact bytes_word_little a b c d
  | big => rw [bytes_big, word_big, bytes_word_little]; rfl

/-- Every dword is the one of its bytes, in either order. -/
private theorem exists_bytes_eq (order : ByteOrder) (w : UInt32) :
    ∃ a b c d, order.bytes w = [a, b, c, d] ∧ order.word a b c d = w := by
  cases order with
  | little => exact ⟨_, _, _, _, rfl, word_bytes_little w⟩
  | big => exact ⟨_, _, _, _, rfl, word_bytes_little w⟩

private theorem swap_word_little (a b c d : UInt8) : swap (little.word a b c d) = big.word a b c d := by
  have h := bytes_word_little a b c d
  simp only [bytes, List.cons.injEq, and_true] at h
  obtain ⟨ha, hb, hc, hd⟩ := h
  rw [swap, ha, hb, hc, hd]

/-- A host gets the dword that the dump means, from whichever order it loads the bytes in. -/
theorem ofHost_word (host order : ByteOrder) (a b c d : UInt8) :
    host.ofHost order (host.word a b c d) = order.word a b c d := by
  cases host <;> cases order
  · rfl
  · exact swap_word_little a b c d
  · exact swap_word_little d c b a
  · rfl

/-! Whole dumps. -/

private theorem words?_eq (host order : ByteOrder) (bytes : List UInt8) :
    order.words? bytes = if bytes.length % 4 = 0 then some (loadWords host order bytes) else none := by
  induction bytes using loadWords.induct with
  | case1 a b c d rest ih =>
    have hlength : (a :: b :: c :: d :: rest).length % 4 = rest.length % 4 := Nat.add_mod_right rest.length 4
    rw [words?, ih, hlength, loadWords, ofHost_word]
    split <;> rfl
  | case2 bytes hshort =>
    match bytes, hshort with
    | [], _ => rfl
    | [_], _ => rfl
    | [_, _], _ => rfl
    | [_, _, _], _ => rfl
    | a :: b :: c :: d :: rest, hshort => exact absurd rfl (hshort a b c d rest)

theorem words?_dump (order : ByteOrder) (ws : List UInt32) : order.words? (order.dump ws) = some ws := by
  induction ws with
  | nil => rfl
  | cons w ws ih =>
    obtain ⟨a, b, c, d, hbytes, hword⟩ := exists_bytes_eq order w
    have hdump : order.dump (w :: ws) = a :: b :: c :: d :: order.dump ws := by
      rw [dump, List.flatMap_cons, hbytes]
      rfl
    rw [hdump, words?, ih, hword]
    rfl

theorem dump_of_words? (order : ByteOrder) {bytes : List UInt8} {ws : List UInt32}
    (h : order.words? bytes = some ws) : order.dump ws = bytes := by
  induction bytes using loadWords.induct generalizing ws with
  | case1 a b c d rest ih =>
    rw [words?, Option.map_eq_some_iff] at h
    obtain ⟨behind, hbehind, rfl⟩ := h
    rw [dump, List.flatMap_cons, bytes_word]
    exact congrArg ([a, b, c, d] ++ ·) (ih hbehind)
  | case2 bytes hshort =>
    match bytes, hshort, h with
    | [], _, h => cases h; rfl
    | a :: b :: c :: d :: rest, hshort, _ => exact absurd rfl (hshort a b c d rest)

private theorem length_reverseGroups (bytes : List UInt8) : (reverseGroups bytes).length = bytes.length := by
  fun_induction reverseGroups bytes with
  | case1 a b c d rest ih => simp only [List.length_cons, ih]
  | case2 => rfl

theorem loadWords_reverseGroups (host : ByteOrder) (bytes : List UInt8) :
    loadWords host .little (reverseGroups bytes) = loadWords host .big bytes := by
  fun_induction reverseGroups bytes with
  | case1 a b c d rest ih => rw [loadWords, loadWords, ofHost_word, ofHost_word, ih, word_big]
  | case2 bytes hshort => rw [loadWords.eq_2 _ _ _ hshort, loadWords.eq_2 _ _ _ hshort]

end ByteOrder

namespace Shader

/-- The shader of a dump that a host loads, or the message of the error when the last dword is cut short. -/
def load (host : ByteOrder) (stage : Stage) (order : ByteOrder) (bytes : List UInt8) : Except String Shader :=
  if bytes.length % 4 ≠ 0 then .error (partialWordMessage bytes.length)
  else .ok (new stage (host.loadWords order bytes).toArray)

variable {host order : ByteOrder} {stage : Stage} {bytes : List UInt8} {shader : Shader}

/-- What a host makes of a dump is the same for all hosts. -/
theorem load_eq (host : ByteOrder) (stage : Stage) (order : ByteOrder) (bytes : List UInt8) :
    load host stage order bytes
      = (ofBytes? stage order bytes).elim (.error (partialWordMessage bytes.length)) .ok := by
  rw [load, ofBytes?, ByteOrder.words?_eq host]
  by_cases hwhole : bytes.length % 4 = 0
  · rw [if_neg (not_not.mpr hwhole), if_pos hwhole]
    rfl
  · rw [if_pos hwhole, if_neg hwhole]
    rfl

theorem load_eq_error_iff {message : String} :
    load host stage order bytes = .error message
      ↔ bytes.length % 4 ≠ 0 ∧ message = partialWordMessage bytes.length := by
  rw [load]
  split
  · rename_i hcut
    simp [hcut, eq_comm (a := message)]
  · rename_i hwhole
    simp [hwhole]

theorem load_dump (host : ByteOrder) (stage : Stage) (order : ByteOrder) (ws : List UInt32) :
    load host stage order (order.dump ws) = .ok (new stage ws.toArray) := by
  rw [load_eq, ofBytes?, ByteOrder.words?_dump]
  rfl

/-- An accepted dump is the dump of the shader's dwords. -/
theorem dump_words_of_load (h : load host stage order bytes = .ok shader) :
    order.dump shader.words.toList = bytes ∧ shader = new stage shader.words := by
  rw [load_eq, ofBytes?] at h
  cases hws : order.words? bytes with
  | none => rw [hws] at h; cases h
  | some ws =>
    rw [hws] at h
    cases h
    exact ⟨order.dump_of_words? hws, rfl⟩

theorem load_big (host : ByteOrder) (stage : Stage) (bytes : List UInt8) :
    load host stage .big bytes = load host stage .little (ByteOrder.reverseGroups bytes) := by
  rw [load, load, ByteOrder.length_reverseGroups, ByteOrder.loadWords_reverseGroups]

/-- Dumps and dwords determine each other on every host: a dump is refused just when its last dword is cut short, the
dump of any dwords is read as these, and what is read dumps as the same bytes. Two dumps of the same dwords translate
alike. -/
theorem load_roundTrip (host : ByteOrder) (stage : Stage) :
    (∀ order bytes, load host stage order bytes
        = (ofBytes? stage order bytes).elim (.error (partialWordMessage bytes.length)) .ok) ∧
      (∀ order bytes message, load host stage order bytes = .error message
        ↔ bytes.length % 4 ≠ 0 ∧ message = partialWordMessage bytes.length) ∧
      (∀ order ws, load host stage order (order.dump ws) = .ok (new stage ws.toArray)) ∧
      (∀ order bytes shader, load host stage order bytes = .ok shader →
        order.dump shader.words.toList = bytes ∧ shader = new stage shader.words) ∧
      (∀ bytes, load host stage .big bytes = load host stage .little (ByteOrder.reverseGroups bytes)) ∧
      (∀ {σ : Type} (b : Backend σ) settings s host' order order' bytes bytes' shader shader',
        load host stage order bytes = .ok shader → load host' stage order' bytes' = .ok shader' →
          shader.words = shader'.words →
            shader.translate b settings s = shader'.translate b settings s) := by
  refine ⟨load_eq host stage, fun order bytes message => load_eq_error_iff, load_dump host stage,
    fun order bytes shader => dump_words_of_load, load_big host stage, ?_⟩
  intro σ b settings s host' order order' bytes bytes' shader shader' hload hload' hwords
  have hnew : shader = new stage shader.words := (dump_words_of_load hload).2
  have hnew' : shader' = new stage shader'.words := (dump_words_of_load hload').2
  rw [hnew, hnew', hwords]

theorem load_roundTrip_two_words :
    let rising : List UInt8 := [0x78, 0x56, 0x34, 0x12, 1, 0, 0, 0]
    let falling : List UInt8 := [0x12, 0x34, 0x56, 0x78, 0, 0, 0, 1]
    ∃ shader shader',
      load .big .pixel .little rising = .ok shader ∧ load .little .pixel .big falling = .ok shader' ∧
        shader.words = shader'.words ∧ ByteOrder.little.dump shader.words.toList = rising ∧
        shader.translate .listing ⟨.proceed, true⟩ () = shader'.translate .listing ⟨.proceed, true⟩ () := by
  intro rising falling
  obtain ⟨-, -, -, hback, -, htranslate⟩ := load_roundTrip .big .pixel
  have hsame : (ByteOrder.loadWords .big .little rising).toArray = (ByteOrder.loadWords .little .big falling).toArray :=
    congrArg List.toArray (by decide)
  have hload : load .big .pixel .little rising = .ok (new .pixel _) := if_neg (by decide)
  have hload' : load .little .pixel .big falling = .ok (new .pixel _) := if_neg (by decide)
  refine ⟨_, _, hload, hload', hsame, (hback _ _ _ hload).1, ?_⟩
  exact htranslate .listing _ () _ _ _ _ _ _ _ hload hload' hsame

end Shader

end ShaderMicrocode
