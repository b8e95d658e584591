/-
  ServedChain — the messages that a handshake consists of: a type of one byte, a
  length of three bytes and a body.

  * `HandshakeMessage.cutAll` takes all messages off a byte string;
  * `cutAll_append`: what is left carries on with what comes later.
-/
import ServedChain.Bytes

namespace ServedChain.Tls

structure HandshakeMessage where
  type : UInt8
  body : Bytes
  deriving DecidableEq, Repr

namespace HandshakeMessage

/-- The type of a message with the choices of the server. -/
def serverHello : UInt8 := 2

/-- The type of a message with certificates. -/
def certificate : UInt8 := 11

def encode (message : HandshakeMessage) : Bytes :=
  message.type :: Bytes.ofNat 3 message.body.length ++ message.body

/-- The first message of a byte string, if it is complete, and the rest. -/
def cut? : Bytes → Option (HandshakeMessage × Bytes)
  | [] => none
  | type :: bs => do
    let (length, bs) ← Bytes.uint? 3 bs
    let (body, rest) ← Bytes.cut? length bs
    return (⟨type, body⟩, rest)

/-- The length as a number. -/
theorem cut?_cons (type a b c : UInt8) (bs : Bytes) :
    cut? (type :: a :: b :: c :: bs)
      = (Bytes.cut? (65536 * a.toNat + 256 * b.toNat + c.toNat) bs).map
        fun (body, rest) => (⟨type, body⟩, rest) := by
  have hlength : Bytes.toNat [a, b, c] = 65536 * a.toNat + 256 * b.toNat + c.toNat := by
    simp only [Bytes.toNat, List.foldl_cons, List.foldl_nil]
    omega
  have huint : Bytes.uint? 3 (a :: b :: c :: bs)
      = some (65536 * a.toNat + 256 * b.toNat + c.toNat, bs) := by
    rw [← hlength]
    exact congrArg _ (@Bytes.cut?_append 3 [a, b, c] rfl bs)
  rw [cut?, huint, Option.bind_eq_bind, Option.bind_some]
  exact Option.map_eq_bind.symm

theorem cut?_eq_some {bs rest : Bytes} {message : HandshakeMessage}
    (h : cut? bs = some (message, rest)) :
    ∃ length, bs = message.type :: length ++ message.body ++ rest ∧ length.length = 3
      ∧ Bytes.toNat length = message.body.length := by
  cases bs with
  | nil => cases h
  | cons type bs =>
    simp only [cut?, Option.bind_eq_bind, Option.bind_eq_some_iff, Option.pure_def,
      Option.some.injEq, Prod.mk.injEq] at h
    obtain ⟨⟨n, bs'⟩, hn, ⟨body, rest'⟩, hbody, rfl, rfl⟩ := h
    obtain ⟨length, rfl, hlen, rfl⟩ := Bytes.uint?_eq_some hn
    obtain ⟨rfl, hbodyLen⟩ := Bytes.cut?_eq_some_iff.1 hbody
    exact ⟨length, by simp, hlen, hbodyLen.symm⟩

theorem length_lt_of_cut? {bs rest : Bytes} {message : HandshakeMessage}
    (h : cut? bs = some (message, rest)) : rest.length < bs.length := by
  obtain ⟨length, rfl, -, -⟩ := cut?_eq_some h
  simp only [List.cons_append, List.length_cons, List.length_append]
  omega

/-- A message is cut off as it was written. -/
theorem cut?_encode_append {message : HandshakeMessage} (h : message.body.length < 1 <<< 24)
    (rest : Bytes) : cut? (message.encode ++ rest) = some (message, rest) := by
  simp only [encode, cut?, List.cons_append, List.append_assoc, @Bytes.uint?_ofNat_append 3 _ h,
    Option.bind_eq_bind, Option.bind_some, Bytes.cut?_append rfl, Option.pure_def]

/-- The complete messages of a byte string, and the rest. -/
def cutAll (bs : Bytes) : List HandshakeMessage × Bytes :=
  match _h : cut? bs with
  | some (message, rest) =>
    let (messages, rest) := cutAll rest
    (message :: messages, rest)
  | none => ([], bs)
termination_by bs.length
decreasing_by exact length_lt_of_cut? _h

theorem cutAll_of_some {bs rest : Bytes} {message : HandshakeMessage}
    (h : cut? bs = some (message, rest)) :
    cutAll bs = (message :: (cutAll rest).1, (cutAll rest).2) := by
  rw [cutAll]
  split <;> simp_all

theorem cutAll_of_none {bs : Bytes} (h : cut? bs = none) : cutAll bs = ([], bs) := by
  rw [cutAll]
  split <;> simp_all

/-- The rest does not begin with a complete message. -/
theorem cut?_cutAll (bs : Bytes) : cut? (cutAll bs).2 = none := by
  match h : cut? bs with
  | none => rwa [cutAll_of_none h]
  | some (message, rest) =>
    have := length_lt_of_cut? h
    rw [cutAll_of_some h]
    exact cut?_cutAll rest
termination_by bs.length

/-! ## Carrying on -/

theorem cut?_append_of_some {bs rest : Bytes} {message : HandshakeMessage}
    (h : cut? bs = some (message, rest)) (more : Bytes) :
    cut? (bs ++ more) = some (message, rest ++ more) := by
  obtain ⟨length, rfl, hlen, hbody⟩ := cut?_eq_some h
  simp only [List.cons_append, List.append_assoc, cut?, Bytes.uint?, Bytes.cut?_append hlen,
    Option.map_some, hbody, Bytes.cut?_append rfl, Option.bind_eq_bind, Option.bind_some,
    Option.pure_def]

/-- The messages of a longer byte string: those of its front, then those of what was left of it
    and the bytes behind. -/
theorem cutAll_append (bs more : Bytes) :
    cutAll (bs ++ more) = ((cutAll bs).1 ++ (cutAll ((cutAll bs).2 ++ more)).1,
      (cutAll ((cutAll bs).2 ++ more)).2) := by
  match h : cut? bs with
  | none => simp [cutAll_of_none h]
  | some (message, rest) =>
    have := length_lt_of_cut? h
    rw [cutAll_of_some (cut?_append_of_some h more), cutAll_of_some h, cutAll_append rest more]
    rfl
termination_by bs.length

end HandshakeMessage

end ServedChain.Tls
