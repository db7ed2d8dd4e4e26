import KeyWallet.Hwrng
import KeyWallet.StepSystem

/-! What the pool hands out, over any run of both cores. Each function of hwrng.c holds the lock from its first
to its last access, so that it is one step. -/
namespace KeyWallet.Hwrng

open StepSystem RingBuffer

/-- The size of random_pool. -/
def poolSize : Nat := 256

/-- The values that hwrng_mix_init and hwrng_mix_process use. -/
def offset : BitVec 64 := 0xcbf29ce484222325

def prime : BitVec 64 := 0x00000100000001B3

def mix (acc x : BitVec 64) : BitVec 64 := (acc ^^^ x) * prime

/-- The bytes of a word as they lie in memory. -/
def wordBytes (x : BitVec 64) : Bytes := (List.range 8).map fun i => (x >>> (8 * i)).setWidth 8

structure State where
  ring : Buf
  randomWord : BitVec 64
  mixRound : Nat
  valid : ring.Valid
  size_eq : ring.size = poolSize
  mixRound_lt : mixRound < 8

/-- hwrng_init, over a pool that may hold anything. -/
def hwrngInit (pool : Nat → Byte) : State :=
  ⟨Buf.init pool poolSize, offset, 0, Buf.init_valid pool (by decide), rfl, by decide⟩

namespace State

variable (s : State)

/-- hwrng_mix_process, and whether the word is complete. -/
def mixProcess (word : BitVec 64) (ms : BitVec 32) : State × Bool :=
  let seed := if s.mixRound = 0 then offset else s.randomWord
  let randomWord := mix seed (word ^^^ ms.setWidth 64)
  if h : s.mixRound + 1 = 8 then ({ s with randomWord, mixRound := 0, mixRound_lt := by decide }, true)
  else
    ({ s with
      randomWord, mixRound := s.mixRound + 1, mixRound_lt := Nat.lt_of_le_of_ne s.mixRound_lt h }, false)

def add (data : Bytes) : State :=
  { s with ring := (s.ring.add data).1, valid := s.valid.add data, size_eq := s.size_eq }

/-- hwrng_task. -/
def task (word : BitVec 64) (ms : BitVec 32) : State :=
  if 8 ≤ s.ring.space then
    let mixed := s.mixProcess word ms
    if mixed.2 then mixed.1.add (wordBytes mixed.1.randomWord) else mixed.1
  else s

/-- hwrng_read. -/
def read (len : Nat) : State × Bytes :=
  ({ s with ring := (s.ring.del len).1, valid := s.valid.del len, size_eq := s.size_eq }, (s.ring.del len).2)

/-- hwrng_flush. -/
def flush : State :=
  { s with
    ring := { s.ring with head := 0, tail := 0, count := 0 }
    valid := ⟨Nat.zero_lt_of_lt s.valid.head_lt, Nat.zero_le _, (Nat.zero_mod _).symm⟩
    size_eq := s.size_eq }

end State

inductive Input
  | task (word : BitVec 64) (ms : BitVec 32)
  | read (len : Nat)
  | flush

namespace State

variable (s : State)

def step (s : State) : Input → State
  | .task word ms => s.task word ms
  | .read len => (s.read len).1
  | .flush => s.flush

/-- What a step hands out. -/
def handed (s : State) : Input → Bytes
  | .read len => (s.read len).2
  | _ => []

/-- What a step takes out of the pool; a flush takes everything and hands nothing out. -/
def taken (s : State) : Input → Bytes
  | .flush => s.ring.contents
  | i => s.handed i

/-- The word that a step mixes in, if there is room for what comes of it. -/
def mixedIn (s : State) : Input → List (BitVec 64)
  | .task word ms => if 8 ≤ s.ring.space then [word ^^^ ms.setWidth 64] else []
  | _ => []

end State

/-- What the steps of a run give, one after the other. -/
def collect {β : Type*} (f : State → Input → List β) : State → List Input → List β
  | _, [] => []
  | s, i :: is => f s i ++ collect f (s.step i) is

/-! What the pool is for. -/

def mixAll (words : List (BitVec 64)) : BitVec 64 := words.foldl mix offset

/-- Bytes wait in the order in which they were made. Eight words make the next ones. -/
structure Queue where
  waiting : Bytes
  mixing : List (BitVec 64)

namespace Queue

variable (q : Queue)

def task (x : BitVec 64) : Queue :=
  if q.waiting.length + 8 ≤ poolSize then
    if q.mixing.length = 7 then ⟨q.waiting ++ wordBytes (mixAll (q.mixing ++ [x])), []⟩
    else ⟨q.waiting, q.mixing ++ [x]⟩
  else q

def step (q : Queue) : Input → Queue
  | .task word ms => q.task (word ^^^ ms.setWidth 64)
  | .read len => ⟨q.waiting.drop len, q.mixing⟩
  | .flush => ⟨[], q.mixing⟩

def handed (q : Queue) : Input → Bytes
  | .read len => q.waiting.take len
  | _ => []

end Queue

/-- The pool holds what waits, and the words since the last complete one. -/
structure Refines (s : State) (q : Queue) : Prop where
  waiting : s.ring.contents = q.waiting
  mixRound : s.mixRound = q.mixing.length
  seed : (if s.mixRound = 0 then offset else s.randomWord) = mixAll q.mixing

section Refinement

variable {s : State} {q : Queue}

@[simp] theorem wordBytes_length (x : BitVec 64) : (wordBytes x).length = 8 := by
  unfold wordBytes
  rw [List.length_map, List.length_range]

theorem mixAll_nil : mixAll [] = offset := rfl

theorem hwrngInit_contents (pool : Nat → Byte) : (hwrngInit pool).ring.contents = [] := cells_zero

theorem hwrngInit_round (pool : Nat → Byte) : (hwrngInit pool).mixRound = 0 := rfl

theorem hwrngInit_seed (pool : Nat → Byte) :
    (if (hwrngInit pool).mixRound = 0 then offset else (hwrngInit pool).randomWord) = mixAll [] := by
  rw [if_pos (hwrngInit_round pool), mixAll_nil]

theorem hwrngInit_refines (pool : Nat → Byte) : Refines (hwrngInit pool) ⟨[], []⟩ :=
  ⟨hwrngInit_contents pool, hwrngInit_round pool, hwrngInit_seed pool⟩

theorem Refines.space (h : Refines s q) : 8 ≤ s.ring.space ↔ q.waiting.length + 8 ≤ poolSize := by
  have hlen : q.waiting.length = s.ring.count := by
    rw [← h.waiting, Buf.contents_length]
  have hcount := s.valid.count_le
  rw [s.size_eq] at hcount
  unfold Buf.space
  rw [s.size_eq, hlen]
  omega

theorem mixProcess_ring (s : State) (word : BitVec 64) (ms : BitVec 32) : (s.mixProcess word ms).1.ring = s.ring := by
  unfold State.mixProcess
  by_cases hlast : s.mixRound + 1 = 8
  · simp only [hlast, dif_pos]
  · simp only [hlast, dif_neg, not_false_eq_true]

theorem mixProcess_word (s : State) (word : BitVec 64) (ms : BitVec 32) :
    (s.mixProcess word ms).1.randomWord =
      mix (if s.mixRound = 0 then offset else s.randomWord) (word ^^^ ms.setWidth 64) := by
  unfold State.mixProcess
  by_cases hlast : s.mixRound + 1 = 8
  · simp only [hlast, dif_pos]
  · simp only [hlast, dif_neg, not_false_eq_true]

theorem mixProcess_round (s : State) (word : BitVec 64) (ms : BitVec 32) :
    (s.mixProcess word ms).1.mixRound = (if s.mixRound = 7 then 0 else s.mixRound + 1) ∧
      (s.mixProcess word ms).2 = decide (s.mixRound = 7) := by
  unfold State.mixProcess
  by_cases hlast : s.mixRound + 1 = 8
  · have hseven : s.mixRound = 7 := Nat.succ.inj hlast
    simp only [hseven, dif_pos, if_pos, decide_true, and_self]
  · have hseven : s.mixRound ≠ 7 := fun h => hlast (congrArg (· + 1) h)
    simp only [hlast, hseven, dif_neg, not_false_eq_true, if_neg, decide_false, and_self]

/-- What a task that finds room does. -/
theorem task_spec {s : State} (hroom : 8 ≤ s.ring.space) (word : BitVec 64) (ms : BitVec 32) :
    (s.task word ms).randomWord =
        mix (if s.mixRound = 0 then offset else s.randomWord) (word ^^^ ms.setWidth 64) ∧
      (s.task word ms).mixRound = (if s.mixRound = 7 then 0 else s.mixRound + 1) ∧
      (s.task word ms).ring.contents =
        s.ring.contents ++ if s.mixRound = 7 then wordBytes (s.task word ms).randomWord else [] := by
  have hring := mixProcess_ring s word ms
  have hword := mixProcess_word s word ms
  obtain ⟨hround, hcomplete⟩ := mixProcess_round s word ms
  unfold State.task
  rw [if_pos hroom]
  dsimp only
  rw [hcomplete]
  by_cases hseven : s.mixRound = 7
  · rw [if_pos (decide_eq_true hseven), if_pos hseven]
    refine ⟨hword, hround.trans (if_pos hseven), ?_⟩
    show ((s.mixProcess word ms).1.ring.add _).1.contents = _
    rw [Buf.contents_add (s.mixProcess word ms).1.valid, hring,
      List.take_of_length_le (by rw [wordBytes_length]; exact hroom), if_pos hseven]
    rfl
  · have hincomplete : ¬ decide (s.mixRound = 7) = true := by
      rw [decide_eq_true_iff]
      exact hseven
    rw [if_neg hincomplete, if_neg hseven]
    refine ⟨hword, hround.trans (if_neg hseven), ?_⟩
    rw [hring, if_neg hseven, List.append_nil]

theorem Refines.task (h : Refines s q) (word : BitVec 64) (ms : BitVec 32) :
    Refines (s.task word ms) (q.task (word ^^^ ms.setWidth 64)) := by
  have hmixed : mix (if s.mixRound = 0 then offset else s.randomWord) (word ^^^ ms.setWidth 64) =
      mixAll (q.mixing ++ [word ^^^ ms.setWidth 64]) := by
    rw [h.seed]
    unfold mixAll
    rw [List.foldl_append]
    rfl
  by_cases hroom : 8 ≤ s.ring.space
  · obtain ⟨hword, hround, hcontents⟩ := task_spec hroom word ms
    rw [hmixed] at hword
    rw [hword, h.waiting] at hcontents
    unfold Queue.task
    rw [if_pos (h.space.mp hroom), ← h.mixRound]
    by_cases hseven : s.mixRound = 7
    · rw [if_pos hseven] at hround hcontents ⊢
      refine ⟨hcontents, hround, ?_⟩
      rw [hround, if_pos rfl]
      rfl
    · rw [if_neg hseven] at hround hcontents ⊢
      rw [List.append_nil] at hcontents
      refine ⟨hcontents, ?_, ?_⟩
      · rw [hround, List.length_append, h.mixRound]
        rfl
      · rw [hround, if_neg (Nat.succ_ne_zero _)]
        exact hword
  · have hfull : ¬ q.waiting.length + 8 ≤ poolSize := fun hfits => hroom (h.space.mpr hfits)
    unfold State.task Queue.task
    rw [if_neg hroom, if_neg hfull]
    exact h

/-- The pool is a queue of at most 256 bytes. -/
theorem Refines.step (h : Refines s q) (i : Input) :
    Refines (s.step i) (q.step i) ∧ s.handed i = q.handed i := by
  cases i with
  | task word ms => exact ⟨h.task word ms, rfl⟩
  | read len =>
    obtain ⟨hout, hrest⟩ := Buf.contents_del s.valid len
    refine ⟨⟨?_, h.mixRound, h.seed⟩, ?_⟩
    · show (s.ring.del len).1.contents = q.waiting.drop len
      rw [hrest, h.waiting]
    · show (s.ring.del len).2 = q.waiting.take len
      rw [hout, h.waiting]
  | flush => exact ⟨⟨rfl, h.mixRound, h.seed⟩, rfl⟩

end Refinement

/-- The bytes that complete groups of eight words make. -/
def blocks (words : List (BitVec 64)) : Bytes :=
  (List.range (words.length / 8)).flatMap fun i => wordBytes (mixAll ((words.drop (8 * i)).take 8))

theorem blocks_short {words : List (BitVec 64)} (h : words.length < 8) : blocks words = [] := by
  unfold blocks
  rw [Nat.div_eq_of_lt h]
  rfl

theorem blocks_append {group : List (BitVec 64)} (h : group.length = 8) (words : List (BitVec 64)) :
    blocks (group ++ words) = wordBytes (mixAll group) ++ blocks words := by
  have hcount : (group ++ words).length / 8 = words.length / 8 + 1 := by
    rw [List.length_append, h]
    omega
  unfold blocks
  rw [hcount, List.range_succ_eq_map, List.flatMap_cons, List.flatMap_map]
  congr 1
  · rw [Nat.mul_zero, List.drop_zero, List.take_left' h]
  · apply List.flatMap_congr
    intro i _
    have hdrop : 8 * (i + 1) = group.length + 8 * i := by omega
    rw [hdrop, List.drop_length_add_append]

/-- Over a run everything that was made is taken, or waits, in the order in which it was made. -/
theorem Refines.stream {s : State} {q : Queue} (h : Refines s q) (inputs : List Input) :
    collect State.taken s inputs ++ (run State.step s inputs).ring.contents =
      q.waiting ++ blocks (q.mixing ++ collect State.mixedIn s inputs) := by
  induction inputs generalizing s q with
  | nil =>
    show [] ++ s.ring.contents = q.waiting ++ blocks (q.mixing ++ [])
    have hshort : q.mixing.length < 8 := h.mixRound ▸ s.mixRound_lt
    rw [List.nil_append, List.append_nil, h.waiting, blocks_short hshort, List.append_nil]
  | cons i inputs ih =>
    have hrest := ih (h.step i).1
    rw [run_cons]
    show s.taken i ++ _ ++ _ = q.waiting ++ blocks (q.mixing ++ (s.mixedIn i ++ _))
    rw [List.append_assoc, hrest]
    cases i with
    | task word ms =>
      show [] ++ ((q.task _).waiting ++ blocks ((q.task _).mixing ++ _)) =
        q.waiting ++ blocks (q.mixing ++ ((if 8 ≤ s.ring.space then [_] else []) ++ _))
      unfold Queue.task
      by_cases hroom : 8 ≤ s.ring.space
      · rw [if_pos hroom, if_pos (h.space.mp hroom), List.nil_append, ← List.append_assoc q.mixing]
        by_cases hseven : q.mixing.length = 7
        · have hgroup : (q.mixing ++ [word ^^^ ms.setWidth 64]).length = 8 := by
            rw [List.length_append, hseven]
            rfl
          rw [if_pos hseven, blocks_append hgroup, ← List.append_assoc]
          rfl
        · rw [if_neg hseven]
      · rw [if_neg hroom, if_neg fun hfits => hroom (h.space.mpr hfits)]
        rfl
    | read len =>
      have hout : s.taken (.read len) = q.waiting.take len := (h.step (.read len)).2
      show _ ++ (q.waiting.drop len ++ _) = _
      rw [hout, ← List.append_assoc, List.take_append_drop]
      rfl
    | flush =>
      show s.ring.contents ++ ([] ++ _) = _
      rw [h.waiting]
      rfl

/-- Each byte that the pool hands out is handed out once, and each eight words make eight bytes once. -/
theorem handed_out_once (pool : Nat → Byte) (inputs : List Input) :
    collect State.taken (hwrngInit pool) inputs ++ (run State.step (hwrngInit pool) inputs).ring.contents =
      blocks (collect State.mixedIn (hwrngInit pool) inputs) :=
  (hwrngInit_refines pool).stream inputs

/-! Each of the eight words that are mixed decides the word that comes of them. -/

/-- The multiplication can be undone. -/
def primeInverse : BitVec 64 := 0xce965057aff6957b

theorem mul_prime_bijective : Function.Bijective fun x : BitVec 64 => x * prime := by
  have hleft : prime * primeInverse = 1#64 := by decide
  have hright : primeInverse * prime = 1#64 := by decide
  apply Function.bijective_iff_has_inverse.mpr
  refine ⟨fun x => x * primeInverse, fun x => ?_, fun x => ?_⟩
  · show x * prime * primeInverse = x
    rw [BitVec.mul_assoc, hleft, BitVec.mul_one]
  · show x * primeInverse * prime = x
    rw [BitVec.mul_assoc, hright, BitVec.mul_one]

theorem xor_bijective (a : BitVec 64) : Function.Bijective fun x => x ^^^ a := by
  have hself : Function.LeftInverse (fun x => x ^^^ a) fun x => x ^^^ a := by
    intro x
    show x ^^^ a ^^^ a = x
    rw [BitVec.xor_assoc, BitVec.xor_self, BitVec.xor_zero]
  exact Function.bijective_iff_has_inverse.mpr ⟨_, hself, hself⟩

theorem mix_bijective_acc (x : BitVec 64) : Function.Bijective fun acc => mix acc x :=
  mul_prime_bijective.comp (xor_bijective x)

theorem mix_bijective_word (acc : BitVec 64) : Function.Bijective (mix acc) := by
  have hcomm : mix acc = fun x => mix x acc := by
    funext x
    unfold mix
    rw [BitVec.xor_comm]
  rw [hcomm]
  exact mix_bijective_acc acc

theorem foldl_mix_bijective (words : List (BitVec 64)) : Function.Bijective fun acc => words.foldl mix acc := by
  induction words with
  | nil => exact Function.bijective_id
  | cons x words ih => exact ih.comp (mix_bijective_acc x)

/-- A word of the platform's generator and the time at which it was taken. -/
abbrev Draw := BitVec 64 × BitVec 32

def Draw.word (d : Draw) : BitVec 64 := d.1 ^^^ d.2.setWidth 64

/-- Tasks one after the other. -/
def State.tasks (s : State) (draws : List Draw) : State := draws.foldl (fun s d => s.task d.1 d.2) s

def State.seed (s : State) : BitVec 64 := if s.mixRound = 0 then offset else s.randomWord

section Tasks

variable {s : State}

theorem space_eq (s : State) : s.ring.space = poolSize - s.ring.contents.length := by
  unfold Buf.space
  rw [s.size_eq, Buf.contents_length]

/-- The tasks that complete a word. -/
theorem tasks_contents {draws : List Draw} (hroom : 8 ≤ s.ring.space) (hlen : s.mixRound + draws.length = 8) :
    (s.tasks draws).ring.contents =
      s.ring.contents ++ wordBytes ((draws.map Draw.word).foldl mix s.seed) := by
  induction draws generalizing s with
  | nil => exact absurd hlen (Nat.ne_of_lt s.mixRound_lt)
  | cons d draws ih =>
    obtain ⟨hword, hround, hcontents⟩ := task_spec hroom d.1 d.2
    rw [List.length_cons] at hlen
    show ((s.task d.1 d.2).tasks draws).ring.contents =
      s.ring.contents ++ wordBytes ((draws.map Draw.word).foldl mix (mix s.seed d.word))
    by_cases hseven : s.mixRound = 7
    · have hnil : draws = [] := List.eq_nil_of_length_eq_zero (by omega)
      rw [if_pos hseven, hword] at hcontents
      subst hnil
      exact hcontents
    · rw [if_neg hseven] at hround hcontents
      rw [List.append_nil] at hcontents
      have hseed : (s.task d.1 d.2).seed = mix s.seed d.word := by
        unfold State.seed
        rw [hround, if_neg (Nat.succ_ne_zero _)]
        exact hword
      have hsame : 8 ≤ (s.task d.1 d.2).ring.space := by
        rw [space_eq, hcontents, ← space_eq]
        exact hroom
      rw [ih hsame (by omega), hcontents, hseed]

/-- Whichever of the draws for eight bytes is the good one, the bytes are a bijection of it. -/
theorem draw_bijective {before after : List Draw} (ms : BitVec 32) (hroom : 8 ≤ s.ring.space)
    (hlen : s.mixRound + before.length + 1 + after.length = 8) :
    ∃ f : BitVec 64 → BitVec 64, Function.Bijective f ∧
      ∀ word, (s.tasks (before ++ (word, ms) :: after)).ring.contents = s.ring.contents ++ wordBytes (f word) := by
  refine ⟨fun word => (after.map Draw.word).foldl mix
    (mix ((before.map Draw.word).foldl mix s.seed) (word ^^^ ms.setWidth 64)), ?_, ?_⟩
  · exact (foldl_mix_bijective _).comp ((mix_bijective_word _).comp (xor_bijective _))
  · intro word
    have htotal : s.mixRound + (before ++ (word, ms) :: after).length = 8 := by
      rw [List.length_append, List.length_cons]
      omega
    rw [tasks_contents hroom htotal, List.map_append, List.foldl_append, List.map_cons, List.foldl_cons]
    rfl

end Tasks

theorem second_draw_bijective :
    ∃ f : BitVec 64 → BitVec 64, Function.Bijective f ∧
      ∀ word, ((hwrngInit fun _ => 0).tasks ((0, 1) :: (word, 2) :: List.replicate 6 (0, 3))).ring.contents =
        (hwrngInit fun _ => 0).ring.contents ++ wordBytes (f word) :=
  @draw_bijective (hwrngInit fun _ => 0) [(0, 1)] (List.replicate 6 (0, 3)) 2 (by decide) (by decide)

/-! Waiting until the pool is full. -/

/-- hwrng_wait_full, over the tasks of both cores, while neither reads from the pool. -/
def waitFull (s : State) : List Draw → Bool
  | [] => s.ring.full
  | d :: ds => s.ring.full || waitFull (s.task d.1 d.2) ds

section Waiting

variable {s : State}

theorem task_count (hroom : 8 ≤ s.ring.space) (word : BitVec 64) (ms : BitVec 32) :
    (s.task word ms).ring.count = s.ring.count + if s.mixRound = 7 then 8 else 0 := by
  obtain ⟨-, -, hcontents⟩ := task_spec hroom word ms
  have hlen := congrArg List.length hcontents
  rw [List.length_append, Buf.contents_length, Buf.contents_length] at hlen
  rw [hlen]
  split_ifs
  · rw [wordBytes_length]
  · rfl

theorem space_count (s : State) : s.ring.space + s.ring.count = poolSize := by
  have hcount := s.valid.count_le
  rw [s.size_eq] at hcount
  unfold Buf.space
  rw [s.size_eq]
  omega

theorem full_iff (s : State) : s.ring.full = true ↔ s.ring.count = poolSize := by
  unfold Buf.full
  rw [decide_eq_true_iff, s.size_eq]

/-- A task brings a pool that lacks whole words nearer to the full one. -/
theorem waitFull_returns {draws : List Draw} (hwhole : s.ring.count % 8 = 0)
    (hlen : s.ring.space ≤ draws.length + s.mixRound) : waitFull s draws = true := by
  have hspace := space_count s
  have hlt := s.mixRound_lt
  have hsize : poolSize = 256 := rfl
  induction draws generalizing s with
  | nil =>
    apply (full_iff s).mpr
    rw [List.length_nil] at hlen
    omega
  | cons d draws ih =>
    unfold waitFull
    by_cases hfull : s.ring.full = true
    · rw [hfull, Bool.true_or]
    · have hroom : 8 ≤ s.ring.space := by
        rw [full_iff] at hfull
        omega
      obtain ⟨-, hround, -⟩ := task_spec hroom d.1 d.2
      have hcount := task_count hroom d.1 d.2
      have hnext := space_count (s.task d.1 d.2)
      rw [List.length_cons] at hlen
      have hrest : waitFull (s.task d.1 d.2) draws = true := by
        apply ih
        · rw [hcount]
          split_ifs <;> omega
        · rw [hround]
          split_ifs at hcount ⊢ <;> omega
        · exact hnext
        · exact (s.task d.1 d.2).mixRound_lt
      rw [hrest, Bool.or_true]

/-- A part of a word is never filled up. -/
theorem waitFull_hangs {draws : List Draw} (hpart : s.ring.count % 8 ≠ 0) : waitFull s draws = false := by
  have hsize : poolSize = 256 := rfl
  have hnever (s : State) (h : s.ring.count % 8 ≠ 0) : s.ring.full = false := by
    rw [← Bool.not_eq_true, full_iff]
    omega
  induction draws generalizing s with
  | nil => exact hnever s hpart
  | cons d draws ih =>
    unfold waitFull
    have hnext : (s.task d.1 d.2).ring.count % 8 ≠ 0 := by
      by_cases hroom : 8 ≤ s.ring.space
      · rw [task_count hroom]
        split_ifs <;> omega
      · unfold State.task
        rw [if_neg hroom]
        exact hpart
    rw [hnever s hpart, ih hnext]
    rfl

/-- hwrng_wait_full comes back exactly if what is missing are whole words, however long it waits. -/
theorem waitFull_iff (s : State) {draws : List Draw} (hlen : poolSize ≤ draws.length) :
    waitFull s draws = true ↔ s.ring.count % 8 = 0 := by
  constructor
  · intro h
    by_contra hpart
    rw [waitFull_hangs hpart] at h
    cases h
  · intro hwhole
    have hspace := space_count s
    exact waitFull_returns hwhole (by omega)

end Waiting

/-- After four bytes were read the pool is not filled up again, however long it takes. -/
theorem four_read_hangs :
    waitFull ((((hwrngInit fun _ => 0).tasks (List.replicate 8 (1, 0))).read 4).1) (List.replicate 300 (1, 0)) = true ↔
      (((hwrngInit fun _ => 0).tasks (List.replicate 8 (1, 0))).read 4).1.ring.count % 8 = 0 :=
  waitFull_iff _ (by rw [List.length_replicate]; decide)

end KeyWallet.Hwrng
