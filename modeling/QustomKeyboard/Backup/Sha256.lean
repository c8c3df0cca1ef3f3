import QustomKeyboard.Theory.Bytes
import QustomKeyboard.Theory.Loop

/-!
# Digests

The digests by which the copied files are compared with the source files are
those of the library `sha256`. A context takes bytes one by one
(`Sha256Ctx.push`), and transforms its state whenever it has 64 of them.

The loop over the bytes of a range has a counter of 32 bits, and compares it
with a length of 64 bits (`sha256Update`). So it takes every byte of a range
of less than 2³² bytes (`sha256Update_of_lt`), but never comes to the end of a
longer one (`sha256Update_of_le`). What has been left in the data of a context,
before it was initialised, does not matter (`Agrees.sha256Final_eq`).
-/

namespace QustomKeyboard

open Theory

/-! ## The transformation -/

def rotRight (a b : UInt32) : UInt32 := (a >>> b) ||| (a <<< (32 - b))

def ch (x y z : UInt32) : UInt32 := (x &&& y) ^^^ (~~~x &&& z)

def maj (x y z : UInt32) : UInt32 := (x &&& y) ^^^ (x &&& z) ^^^ (y &&& z)

def ep0 (x : UInt32) : UInt32 := rotRight x 2 ^^^ rotRight x 13 ^^^ rotRight x 22

def ep1 (x : UInt32) : UInt32 := rotRight x 6 ^^^ rotRight x 11 ^^^ rotRight x 25

def sig0 (x : UInt32) : UInt32 := rotRight x 7 ^^^ rotRight x 18 ^^^ (x >>> 3)

def sig1 (x : UInt32) : UInt32 := rotRight x 17 ^^^ rotRight x 19 ^^^ (x >>> 10)

/-- The constants of the rounds. -/
def roundConstants : List UInt32 :=
  [0x428a2f98, 0x71374491, 0xb5c0fbcf, 0xe9b5dba5, 0x3956c25b, 0x59f111f1, 0x923f82a4, 0xab1c5ed5,
    0xd807aa98, 0x12835b01, 0x243185be, 0x550c7dc3, 0x72be5d74, 0x80deb1fe, 0x9bdc06a7, 0xc19bf174,
    0xe49b69c1, 0xefbe4786, 0x0fc19dc6, 0x240ca1cc, 0x2de92c6f, 0x4a7484aa, 0x5cb0a9dc, 0x76f988da,
    0x983e5152, 0xa831c66d, 0xb00327c8, 0xbf597fc7, 0xc6e00bf3, 0xd5a79147, 0x06ca6351, 0x14292967,
    0x27b70a85, 0x2e1b2138, 0x4d2c6dfc, 0x53380d13, 0x650a7354, 0x766a0abb, 0x81c2c92e, 0x92722c85,
    0xa2bfe8a1, 0xa81a664b, 0xc24b8b70, 0xc76c51a3, 0xd192e819, 0xd6990624, 0xf40e3585, 0x106aa070,
    0x19a4c116, 0x1e376c08, 0x2748774c, 0x34b0bcb5, 0x391c0cb3, 0x4ed8aa4a, 0x5b9cca4f, 0x682e6ff3,
    0x748f82ee, 0x78a5636f, 0x84c87814, 0x8cc70208, 0x90befffa, 0xa4506ceb, 0xbef9a3f7, 0xc67178f2]

/-- The state of a context, and the variables of the transformation. -/
structure Sha256State where
  a : UInt32
  b : UInt32
  c : UInt32
  d : UInt32
  e : UInt32
  f : UInt32
  g : UInt32
  h : UInt32
  deriving DecidableEq, Inhabited

/-- The word `i` of a block, the most significant byte first. -/
def blockWord (data : List UInt8) (i : ℕ) : UInt32 :=
  .ofNat (ofLe ((data.drop (4 * i)).take 4).reverse)

/-- The 64 words of the rounds on a block. -/
def messageWords (data : List UInt8) : List UInt32 :=
  (List.range' 16 48).foldl
    (fun m i => m ++ [sig1 (m.getD (i - 2) 0) + m.getD (i - 7) 0 + sig0 (m.getD (i - 15) 0) +
      m.getD (i - 16) 0])
    ((List.range 16).map (blockWord data))

/-- A round, with its constant and its word. -/
def sha256Round (s : Sha256State) (km : UInt32 × UInt32) : Sha256State :=
  let t1 := s.h + ep1 s.e + ch s.e s.f s.g + km.1 + km.2
  let t2 := ep0 s.a + maj s.a s.b s.c
  { a := t1 + t2, b := s.a, c := s.b, d := s.c, e := s.d + t1, f := s.e, g := s.f, h := s.g }

/-- `sha256_transform`, on the state and a block. -/
def sha256Transform (s : Sha256State) (data : List UInt8) : Sha256State :=
  let t := (roundConstants.zip (messageWords data)).foldl sha256Round s
  { a := s.a + t.a, b := s.b + t.b, c := s.c + t.c, d := s.d + t.d,
    e := s.e + t.e, f := s.f + t.f, g := s.g + t.g, h := s.h + t.h }

/-! ## Contexts -/

/-- `SHA256_CTX`. -/
structure Sha256Ctx where
  data : Vector UInt8 64
  datalen : Fin 64
  bitlen : UInt64
  state : Sha256State
  deriving DecidableEq, Inhabited

/-- `sha256_init`. -/
def sha256Init (ctx : Sha256Ctx) : Sha256Ctx :=
  { ctx with
    datalen := 0
    bitlen := 0
    state :=
      { a := 0x6a09e667, b := 0xbb67ae85, c := 0x3c6ef372, d := 0xa54ff53a,
        e := 0x510e527f, f := 0x9b05688c, g := 0x1f83d9ab, h := 0x5be0cd19 } }

/-- The body of the loop of `sha256_update`: the byte `b` is taken. -/
def Sha256Ctx.push (ctx : Sha256Ctx) (b : UInt8) : Sha256Ctx :=
  let data := ctx.data.set ctx.datalen b
  if h : (ctx.datalen : ℕ) + 1 < 64 then { ctx with data, datalen := ⟨ctx.datalen + 1, h⟩ }
  else
    { data
      datalen := 0
      bitlen := ctx.bitlen + 512
      state := sha256Transform ctx.state data.toList }

/-- `sha256_update`, on the first `len` bytes of `data`, with some fuel. There is no
    result if it reads behind `data`. -/
def sha256Update (fuel : ℕ) (ctx : Sha256Ctx) (data : List UInt8) (len : ℕ) : Option Sha256Ctx :=
  (whileLoop (fun s : UInt32 × Sha256Ctx => s.1.toNat < len)
    (fun s => data[s.1.toNat]?.map fun b => (s.1 + 1, s.2.push b)) fuel (0, ctx)).map Prod.snd

/-- `sha256_final`: the digest. -/
def sha256Final (ctx : Sha256Ctx) : List UInt8 :=
  let bitlen := ctx.bitlen + .ofNat (ctx.datalen * 8)
  let length := (toLe 8 bitlen.toNat).reverse
  let data := ctx.data.toList.take ctx.datalen ++ [0x80]
  let state :=
    if (ctx.datalen : ℕ) < 56 then
      sha256Transform ctx.state (data ++ List.replicate (56 - data.length) 0 ++ length)
    else
      sha256Transform
        (sha256Transform ctx.state (data ++ List.replicate (64 - data.length) 0))
        (List.replicate 56 0 ++ length)
  [state.a, state.b, state.c, state.d, state.e, state.f, state.g, state.h].flatMap fun w =>
    (toLe 4 w.toNat).reverse

-- The digest of `abc`, from a context that has been used before.
example : sha256Final
    ([0x61, 0x62, 0x63].foldl Sha256Ctx.push (sha256Init
      { data := Vector.replicate 64 7, datalen := 3, bitlen := 1
        state := ⟨1, 2, 3, 4, 5, 6, 7, 8⟩ })) =
    [0xba, 0x78, 0x16, 0xbf, 0x8f, 0x01, 0xcf, 0xea, 0x41, 0x41, 0x40, 0xde, 0x5d, 0xae, 0x22,
      0x23, 0xb0, 0x03, 0x61, 0xa3, 0x96, 0x17, 0x7a, 0x9c, 0xb4, 0x10, 0xff, 0x61, 0xf2, 0x00,
      0x15, 0xad] := by
  decide +kernel

/-! ## Ranges of bytes -/

/-- A range of less than 2³² bytes is taken byte by byte. -/
theorem sha256Update_of_lt {data : List UInt8} {len fuel : ℕ} (hlen : len < 2 ^ 32)
    (hdata : len ≤ data.length) (hfuel : len < fuel) (ctx : Sha256Ctx) :
    sha256Update fuel ctx data len = some ((data.take len).foldl Sha256Ctx.push ctx) := by
  -- Behind `i` bytes, the context has taken these.
  have hbody (s : UInt32 × Sha256Ctx)
      (hs : s.1.toNat ≤ len ∧ s.2 = (data.take s.1.toNat).foldl Sha256Ctx.push ctx)
      (hguard : decide (s.1.toNat < len) = true) :
      ∃ t, (data[s.1.toNat]?.map fun b => (s.1 + 1, s.2.push b)) = some t ∧
        (t.1.toNat ≤ len ∧ t.2 = (data.take t.1.toNat).foldl Sha256Ctx.push ctx) ∧
        len - t.1.toNat < len - s.1.toNat := by
    have hlt : s.1.toNat < len := of_decide_eq_true hguard
    have hin : s.1.toNat < data.length := by omega
    have hsucc : (s.1 + 1).toNat = s.1.toNat + 1 := by
      rw [UInt32.toNat_add, show (1 : UInt32).toNat = 1 from rfl, Nat.mod_eq_of_lt (by omega)]
    refine ⟨(s.1 + 1, s.2.push data[s.1.toNat]), ?_, ⟨?_, ?_⟩, ?_⟩
    · rw [List.getElem?_eq_getElem hin, Option.map_some]
    · rw [hsucc]
      exact hlt
    · rw [hsucc, List.take_succ_eq_append_getElem hin, List.foldl_append, ← hs.2]
      rfl
    · rw [hsucc]
      omega
  obtain ⟨t, ht, ⟨hle, htaken⟩, hguard⟩ := whileLoop_total
    (v := fun s : UInt32 × Sha256Ctx => len - s.1.toNat) hbody (s := (0, ctx))
    ⟨Nat.zero_le _, rfl⟩ hfuel
  have hge : len ≤ t.1.toNat := Nat.not_lt.1 (of_decide_eq_false hguard)
  rw [sha256Update, ht, Option.map_some, htaken, Nat.le_antisymm hle hge]

/-- The counter never gets to a length of 2³² or more. -/
theorem sha256Update_of_le {data : List UInt8} {len : ℕ} (hlen : 2 ^ 32 ≤ len) (fuel : ℕ)
    (ctx : Sha256Ctx) : sha256Update fuel ctx data len = none := by
  rw [sha256Update, whileLoop_eq_none (I := fun _ => True) (fun s _ => ?_) (fun _ _ _ _ => trivial)
    fuel trivial]
  · rfl
  · exact decide_eq_true (Nat.lt_of_lt_of_le s.1.toNat_lt hlen)

/-! ## Contexts in use -/

/-- The contexts differ at most in bytes of their data that are not in use. -/
structure Sha256Ctx.Agrees (c c' : Sha256Ctx) : Prop where
  datalen_eq : c.datalen = c'.datalen
  bitlen_eq : c.bitlen = c'.bitlen
  state_eq : c.state = c'.state
  take_eq : c.data.toList.take c.datalen = c'.data.toList.take c.datalen

/-- An initialised context has no bytes in use. -/
theorem sha256Init_agrees (c c' : Sha256Ctx) : (sha256Init c).Agrees (sha256Init c') :=
  ⟨rfl, rfl, rfl, by rw [sha256Init, Fin.val_zero, List.take_zero, List.take_zero]⟩

/-- The bytes in use, with the next one. -/
theorem take_succ_set (data : Vector UInt8 64) (i : Fin 64) (b : UInt8) :
    (data.set i b).toList.take (i + 1) = data.toList.take i ++ [b] := by
  have hlen : (i : ℕ) < data.toList.length := by rw [Vector.length_toList]; exact i.2
  rw [Vector.toList_set, List.take_set, List.take_succ_eq_append_getElem hlen,
    List.set_append_right]
  · simp
  · simp 

theorem Sha256Ctx.Agrees.push {c c' : Sha256Ctx} (h : c.Agrees c') (b : UInt8) :
    (c.push b).Agrees (c'.push b) := by
  rcases c with ⟨data, i, bitlen, state⟩
  rcases c' with ⟨data', i', bitlen', state'⟩
  obtain ⟨rfl, rfl, rfl, htake⟩ := h
  have hset := take_succ_set data i b
  rw [htake, ← take_succ_set data' i b] at hset
  unfold Sha256Ctx.push
  split
  · exact ⟨rfl, rfl, rfl, hset⟩
  · -- The block is full, and no byte of the one before is left in it.
    rename_i hfull
    have hall (v : Vector UInt8 64) : v.toList.take (i + 1) = v.toList :=
      List.take_of_length_le (by
        rw [Vector.length_toList]
        exact Nat.not_lt.1 hfull)
    rw [hall, hall] at hset
    exact ⟨rfl, rfl, congrArg (sha256Transform state) hset, rfl⟩

theorem Sha256Ctx.Agrees.foldl_push {c c' : Sha256Ctx} (h : c.Agrees c') (bytes : List UInt8) :
    (bytes.foldl Sha256Ctx.push c).Agrees (bytes.foldl Sha256Ctx.push c') := by
  induction bytes generalizing c c' with
  | nil => exact h
  | cons b bytes ih => exact ih (h.push b)

theorem Sha256Ctx.Agrees.sha256Final_eq {c c' : Sha256Ctx} (h : c.Agrees c') :
    sha256Final c = sha256Final c' := by
  obtain ⟨hdatalen, hbitlen, hstate, htake⟩ := h
  unfold sha256Final
  rw [htake, hdatalen, hbitlen, hstate]

end QustomKeyboard
