import KeyWallet.FlashCalls

/-! The two pools of the flash and the lists of their records: what a record that is added, taken back or
cleared makes of them. -/
namespace KeyWallet.FlashFile

open ByteBuffer (blit window)

/-- The records of both pools. -/
def Linked (l : Layout) (m : Memory) (chains : Bool → List Nat) : Prop :=
  ∀ p, Chain m (l.startp p) (l.endp p) (chains p)

theorem Layout.bounds (l : Layout) :
    l.startp false = l.start ∧ l.endp false = l.finish - 12 - flashPermanentRegion - 8 ∧
      l.startp true = l.finish - 12 - flashPermanentRegion ∧ l.endp true = l.finish - 12 := by
  refine ⟨?_, ?_, ?_, ?_⟩
  · rw [Layout.startp, if_neg Bool.false_ne_true]
  · rw [Layout.endp, if_neg Bool.false_ne_true, Layout.endDataPool, Layout.startRomPool, Layout.endRomPool]
  · rw [Layout.startp, if_pos rfl, Layout.startRomPool, Layout.endRomPool]
  · rw [Layout.endp, if_pos rfl, Layout.endRomPool]

theorem Layout.startp_pos (l : Layout) (p : Bool) : 0 < l.startp p := by
  obtain ⟨h1, h2, h3, h4⟩ := l.bounds
  have hpos := l.start_pos
  have hroom := l.room
  cases p with
  | false => omega
  | true => omega

theorem Layout.startp_le (l : Layout) (p : Bool) : l.startp p ≤ l.endp p := by
  obtain ⟨h1, h2, h3, h4⟩ := l.bounds
  have hroom := l.room
  cases p with
  | false => omega
  | true => omega

theorem Layout.endp_lt (l : Layout) (p : Bool) : l.endp p + 4 < 4294967296 := by
  obtain ⟨h1, h2, h3, h4⟩ := l.bounds
  have hfits := l.fits
  have hroom := l.room
  cases p with
  | false => omega
  | true => omega

/-- The pools do not meet. -/
theorem Layout.apart (l : Layout) {p q : Bool} (h : p ≠ q) :
    l.endp p + 4 < l.startp q ∨ l.endp q + 4 < l.startp p := by
  obtain ⟨h1, h2, h3, h4⟩ := l.bounds
  have hroom := l.room
  have hpools : l.endp false + 4 < l.startp true := by omega
  cases p with
  | false =>
    cases q with
    | false => exact absurd rfl h
    | true => exact .inl hpools
  | true =>
    cases q with
    | false => exact .inr hpools
    | true => exact absurd rfl h

section Change

variable {l : Layout} {m m' : Memory} {chains : Bool → List Nat} {p : Bool} {pre post : List Nat} {addr b : Nat}

theorem Linked.mem (h : Linked l m chains) {q : Bool} (hb : b ∈ chains q) :
    l.startp q ≤ b ∧ b + recordSize m b ≤ l.endp q := by
  obtain ⟨hlow, hhigh, _⟩ := Seg.mem (h q) hb
  exact ⟨hlow, hhigh⟩

/-- Outside of its pool nothing has changed. -/
theorem Beside.outside {lo e q a : Nat} (hpre : Seg m lo e pre a) (hpost : Below m lo q post)
    (hm : Beside m m' addr (last e pre) post) (hfree : Free m addr post) (hlow : lo ≤ addr)
    (hp : addr ≤ last e pre) {x : Nat} (hx : x < lo ∨ e + 4 ≤ x) : m' x = m x := by
  have hlast := hpre.last_le
  apply hm x (by omega)
  intro n hn
  obtain ⟨hn1, _, _⟩ := hpost.head hn
  have hn2 := hfree.head_lt hn
  omega

theorem Linked.other (h : Linked l m chains) (hm : ∀ a, a < l.startp p ∨ l.endp p + 4 ≤ a → m' a = m a)
    {q : Bool} (hq : q ≠ p) :
    Chain m' (l.startp q) (l.endp q) (chains q) ∧ ∀ b ∈ chains q, Kept m m' b := by
  have hapart := l.apart hq
  have hp := l.startp_le p
  have hsame : ∀ a, l.startp q ≤ a → a < l.endp q + 4 → m' a = m a := by
    intro a ha ha'
    exact hm a (by omega)
  refine ⟨Chain.same (h q) hsame (l.startp_le q), ?_⟩
  intro b hb a ha ha'
  obtain ⟨hlow, hhigh⟩ := h.mem hb
  exact hsame a (by omega) (by omega)

theorem Linked.split (h : Linked l m chains) (hsplit : chains p = pre ++ post) :
    Seg m (l.startp p) (l.endp p) pre (first post) ∧ Below m (l.startp p) (last (l.endp p) pre) post := by
  have hp := h p
  rw [hsplit] at hp
  exact (chain_append pre post).mp hp

theorem Linked.beside_kept (h : Linked l m chains) (hsplit : chains p = pre ++ post)
    (hm : Beside m m' addr (last (l.endp p) pre) post) (hfree : Free m addr post) (hlow : l.startp p ≤ addr)
    (hp : addr ≤ last (l.endp p) pre) {q : Bool} (hb : b ∈ chains q) : Kept m m' b := by
  obtain ⟨hpre, hpost⟩ := h.split hsplit
  by_cases hq : q = p
  · subst hq
    rw [hsplit] at hb
    rcases List.mem_append.mp hb with hb | hb
    · exact hpre.beside_kept hm hfree hp hb
    · exact hpost.beside_kept hm hfree hb
  · have hout : ∀ a, a < l.startp p ∨ l.endp p + 4 ≤ a → m' a = m a := by
      intro a ha
      exact hm.outside hpre hpost hfree hlow hp ha
    exact (h.other hout hq).2 b hb

/-- A record lies below the gap, or behind it. -/
theorem Linked.free_apart (h : Linked l m chains) (hsplit : chains p = pre ++ post) (hfree : Free m addr post)
    (hlow : l.startp p ≤ addr) (hp : addr ≤ last (l.endp p) pre) {q : Bool} (hb : b ∈ chains q) :
    b + recordSize m b ≤ addr ∨ last (l.endp p) pre ≤ b := by
  obtain ⟨hpre, hpost⟩ := h.split hsplit
  by_cases hq : q = p
  · subst hq
    rw [hsplit] at hb
    rcases List.mem_append.mp hb with hb | hb
    · exact .inr (hpre.mem hb).2.2
    · left
      obtain ⟨_, _, hplace⟩ := hpost.mem hb
      obtain ⟨n, hn⟩ : ∃ n, post.head? = some n := by
        cases post with
        | nil => cases hb
        | cons n post => exact ⟨n, rfl⟩
      have hroom := hfree n hn
      have hsize := twelve_le_recordSize m n
      rcases hplace n hn with rfl | hle
      · exact hroom
      · omega
  · obtain ⟨hlow', hhigh'⟩ := h.mem hb
    have hsize := twelve_le_recordSize m b
    have hlast := hpre.last_le
    have hapart := l.apart hq
    omega

/-- Taking a new record back gives the old list. -/
theorem Linked.restore (h : Linked l m chains) (hsplit : chains p = pre ++ post)
    (hm : Beside m m' addr (last (l.endp p) pre) post) (hfree : Free m addr post) (hlow : l.startp p ≤ addr)
    (hp : addr ≤ last (l.endp p) pre) (hnext : readU32 m' (last (l.endp p) pre) = first post)
    (hback : ∀ n, post.head? = some n → readU32 m' (n + 4) = last (l.endp p) pre) : Linked l m' chains := by
  obtain ⟨hpre, hpost⟩ := h.split hsplit
  have hout : ∀ a, a < l.startp p ∨ l.endp p + 4 ≤ a → m' a = m a := by
    intro a ha
    exact hm.outside hpre hpost hfree hlow hp ha
  intro q
  by_cases hq : q = p
  · subst hq
    rw [hsplit]
    exact Chain.rejoin hpre hpost hm hfree hp hnext hback
  · exact (h.other hout hq).1

/-- A record in a gap comes into the list of its pool. -/
theorem Linked.insert (h : Linked l m chains) (hsplit : chains p = pre ++ post)
    (hm : Beside m m' addr (last (l.endp p) pre) post) (hfree : Free m addr post) (hlow : l.startp p ≤ addr)
    (hp : addr + recordSize m' addr ≤ last (l.endp p) pre) (hnext : readU32 m' (last (l.endp p) pre) = addr)
    (hprev : readU32 m' (addr + 4) = last (l.endp p) pre) (hpost' : readU32 m' addr = first post)
    (hback : ∀ n, post.head? = some n → readU32 m' (n + 4) = addr) :
    ∃ chains', Linked l m' chains' ∧ ∀ q c, c ∈ chains' q ↔ c ∈ chains q ∨ q = p ∧ c = addr := by
  obtain ⟨hpre, hpost⟩ := h.split hsplit
  have hsize := twelve_le_recordSize m' addr
  have hp' : addr ≤ last (l.endp p) pre := by omega
  have hout : ∀ a, a < l.startp p ∨ l.endp p + 4 ≤ a → m' a = m a := by
    intro a ha
    exact hm.outside hpre hpost hfree hlow hp' ha
  refine ⟨Function.update chains p (pre ++ addr :: post), ?_, ?_⟩
  · intro q
    by_cases hq : q = p
    · subst hq
      rw [Function.update_self]
      exact Chain.insert hpre hpost hm hfree hp' hnext ⟨hlow, hp, hprev⟩ hpost' hback
    · rw [Function.update_of_ne hq]
      exact (h.other hout hq).1
  · intro q c
    by_cases hq : q = p
    · subst hq
      rw [Function.update_self, hsplit]
      simp only [List.mem_append, List.mem_cons, true_and]
      tauto
    · rw [Function.update_of_ne hq]
      simp only [hq, false_and, or_false]

/-- A record leaves the list of its pool, and the others stay as they are. -/
theorem Linked.remove (h : Linked l m chains) (hsplit : chains p = pre ++ b :: post)
    (hm : Beside m m' b (last (l.endp p) pre) post) (hnext : readU32 m' (last (l.endp p) pre) = first post)
    (hback : ∀ n, post.head? = some n → readU32 m' (n + 4) = last (l.endp p) pre) :
    (∃ chains', Linked l m' chains' ∧ ∀ q c, c ∈ chains' q ↔ c ∈ chains q ∧ c ≠ b) ∧
      ∀ q, ∀ c ∈ chains q, c ≠ b → Kept m m' c := by
  obtain ⟨hpre, hnode, hrest⟩ := h.split hsplit
  obtain ⟨_, hpost⟩ := (chain_iff post).mp hrest
  have hsize := twelve_le_recordSize m b
  have hhigh := hnode.high
  have hlow := hnode.low
  have hfree : Free m b post := fun n hn => (hpost.head hn).2.1
  have hp : b ≤ last (l.endp p) pre := by omega
  have hout : ∀ a, a < l.startp p ∨ l.endp p + 4 ≤ a → m' a = m a := by
    intro a ha
    exact hm.outside hpre hpost hfree hlow hp ha
  have hnodup : (pre ++ b :: post).Nodup := by
    rw [← hsplit]
    exact (h p).nodup
  refine ⟨⟨Function.update chains p (pre ++ post), ?_, ?_⟩, ?_⟩
  · intro q
    by_cases hq : q = p
    · subst hq
      rw [Function.update_self]
      exact Chain.rejoin hpre hpost hm hfree hp hnext hback
    · rw [Function.update_of_ne hq]
      exact (h.other hout hq).1
  · intro q c
    by_cases hq : q = p
    · subst hq
      rw [Function.update_self, hsplit]
      have hfresh := List.perm_middle.nodup_iff.mp hnodup
      rw [List.nodup_cons] at hfresh
      simp only [List.mem_append, List.mem_cons]
      constructor
      · intro hc
        refine ⟨by tauto, ?_⟩
        intro hcb
        subst hcb
        exact hfresh.1 (List.mem_append.mpr hc)
      · rintro ⟨hc, hne⟩
        tauto
    · rw [Function.update_of_ne hq]
      constructor
      · intro hc
        refine ⟨hc, ?_⟩
        obtain ⟨hlow', hhigh'⟩ := h.mem hc
        have hsize' := twelve_le_recordSize m c
        have hlast := hpre.last_le
        have hapart := l.apart hq
        omega
      · intro hc
        exact hc.1
  · intro q c hc hne
    by_cases hq : q = p
    · subst hq
      rw [hsplit] at hc
      rcases List.mem_append.mp hc with hc | hc
      · exact hpre.beside_kept hm hfree hp hc
      · rcases List.mem_cons.mp hc with rfl | hc
        · exact absurd rfl hne
        · exact hpost.beside_kept hm hfree hc
    · exact (h.other hout hq).2 c hc

theorem Linked.shrink (h : Linked l m chains) (hb : b ∈ chains p)
    (hm : ∀ a, a < b + 10 ∨ b + recordSize m b ≤ a → m' a = m a) (hsize : recordSize m' b ≤ recordSize m b) :
    Linked l m' chains ∧ ∀ q, ∀ c ∈ chains q, c ≠ b → Kept m m' c := by
  obtain ⟨pre, post, hsplit⟩ := List.append_of_mem hb
  obtain ⟨hpre, hnode, hrest⟩ := h.split hsplit
  have htwelve := twelve_le_recordSize m b
  have hhigh := hnode.high
  have hlow := hnode.low
  have hle := hpre.last_le
  have hout : ∀ a, a < l.startp p ∨ l.endp p + 4 ≤ a → m' a = m a := by
    intro a ha
    exact hm a (by omega)
  have hnext : readU32 m' (last (l.endp p) pre) = b := by
    refine (readU32_congr ?_).trans hpre.tail
    intro a ha ha'
    exact hm a (by omega)
  have hback : readU32 m' (b + 4) = last (l.endp p) pre := by
    refine (readU32_congr ?_).trans hnode.back
    intro a ha ha'
    exact hm a (by omega)
  refine ⟨?_, ?_⟩
  · intro q
    by_cases hq : q = p
    · subst hq
      rw [hsplit, chain_append]
      refine ⟨hpre.same ?_ hnext, ⟨hlow, by omega, hback⟩, Chain.same hrest ?_ hlow⟩
      · intro a ha _
        exact hm a (by omega)
      · intro a _ ha
        exact hm a (by omega)
    · exact (h.other hout hq).1
  · intro q c hc hne
    by_cases hq : q = p
    · subst hq
      rw [hsplit] at hc
      rcases List.mem_append.mp hc with hc | hc
      · intro a ha _
        have hplace := (hpre.mem hc).2.2
        exact hm a (by omega)
      · rcases List.mem_cons.mp hc with rfl | hc
        · exact absurd rfl hne
        · intro a _ ha
          have hplace := (Seg.mem hrest hc).2.1
          exact hm a (by omega)
    · exact (h.other hout hq).2 c hc

end Change

end KeyWallet.FlashFile
