import Mathlib.Data.List.Induction

/-!
# Hash chains

A chain starts from the digest of a fixed message, and each block replaces the digest by
that of a message made from the digest and the block. If the message determines the
digest and the block, and is never the fixed one, then the last digest commits to all the
blocks, and to their number: two chains that end in the same digest have the same blocks,
or two different messages hashed on the way have the same digest (`Chain.commits`).

The hash function is arbitrary. What of a block its message determines is its `view`.
-/

namespace HashChain

/-- The messages with the hash function: that of the first digest, and that of a block
after a digest. -/
structure Chain (M B D : Type) where
  hash : M → D
  start : M
  next : D → B → M

variable {M B D V : Type}

/-- Two different messages of the list have the same digest. -/
def Collision (hash : M → D) (ms : List M) : Prop :=
  ∃ x ∈ ms, ∃ y ∈ ms, x ≠ y ∧ hash x = hash y

theorem Collision.mono {hash : M → D} {ms ms' : List M} (h : Collision hash ms) (hsub : ms ⊆ ms') :
    Collision hash ms' := by
  obtain ⟨x, hx, y, hy, hne, heq⟩ := h
  exact ⟨x, hsub hx, y, hsub hy, hne, heq⟩

namespace Chain

variable (c : Chain M B D)

/-- The digest after a list of blocks. -/
def digest (bs : List B) : D := bs.foldl (fun d b => c.hash (c.next d b)) (c.hash c.start)

/-- The messages hashed for the blocks that come after a digest. -/
def hashedFrom : D → List B → List M
  | _, [] => []
  | d, b :: bs => c.next d b :: hashedFrom (c.hash (c.next d b)) bs

/-- The messages hashed for a list of blocks. -/
def hashed (bs : List B) : List M := c.start :: c.hashedFrom (c.hash c.start) bs

@[simp] theorem digest_nil : c.digest [] = c.hash c.start := rfl

@[simp] theorem digest_concat (bs : List B) (b : B) :
    c.digest (bs ++ [b]) = c.hash (c.next (c.digest bs) b) := by
  rw [digest, List.foldl_append]
  rfl

theorem hashedFrom_concat (d : D) (bs : List B) (b : B) : c.hashedFrom d (bs ++ [b]) =
    c.hashedFrom d bs ++ [c.next (bs.foldl (fun d b => c.hash (c.next d b)) d) b] := by
  induction bs generalizing d with
  | nil => rfl
  | cons b' bs ih => rw [List.cons_append, hashedFrom, ih, hashedFrom, List.cons_append]; rfl

theorem hashed_concat (bs : List B) (b : B) :
    c.hashed (bs ++ [b]) = c.hashed bs ++ [c.next (c.digest bs) b] := by
  rw [hashed, hashedFrom_concat, hashed, List.cons_append]
  rfl

/-- The message determines the digest and the view of a valid block, and is never the
message of the start. -/
structure Separated (Valid : B → Prop) (view : B → V) : Prop where
  start : ∀ d b, Valid b → c.start ≠ c.next d b
  next : ∀ d b d' b', Valid b → Valid b' → c.next d b = c.next d' b' → d = d' ∧ view b = view b'

variable {c} {Valid : B → Prop} {view : B → V}

/-- Chains that end in the same digest have the same blocks, or there is a collision among
the messages hashed for them. -/
theorem commits (h : c.Separated Valid view) {bs bs' : List B} (hbs : ∀ b ∈ bs, Valid b)
    (hbs' : ∀ b ∈ bs', Valid b) (heq : c.digest bs = c.digest bs') :
    bs.map view = bs'.map view ∨ Collision c.hash (c.hashed bs ++ c.hashed bs') := by
  induction bs using List.reverseRecOn generalizing bs' with
  | nil =>
      induction bs' using List.reverseRecOn with
      | nil => exact .inl rfl
      | append_singleton bs' b' _ =>
          have hne := h.start (c.digest bs') b' (hbs' b' (by simp))
          rw [digest_nil, digest_concat] at heq
          exact .inr ⟨_, by simp [hashed], _, by simp [hashed_concat], hne, heq⟩
  | append_singleton bs b ih =>
      have hb := hbs b (by simp)
      induction bs' using List.reverseRecOn with
      | nil =>
          have hne := h.start (c.digest bs) b hb
          rw [digest_nil, digest_concat] at heq
          exact .inr ⟨_, by simp [hashed], _, by simp [hashed_concat], hne, heq.symm⟩
      | append_singleton bs' b' _ =>
          have hb' := hbs' b' (by simp)
          rw [digest_concat, digest_concat] at heq
          by_cases hmessage : c.next (c.digest bs) b = c.next (c.digest bs') b'
          · -- the last blocks agree, and so do the digests before them
            obtain ⟨hdigest, hview⟩ := h.next _ b _ b' hb hb' hmessage
            have hrest := ih (fun b hb => hbs b (by simp [hb]))
              (fun b hb => hbs' b (by simp [hb])) hdigest
            refine hrest.imp (fun hmap => ?_) fun hcollision => hcollision.mono ?_
            · rw [List.map_append, List.map_append, hmap, List.map_singleton, hview,
                List.map_singleton]
            · rw [hashed_concat, hashed_concat]
              exact List.append_subset.mpr ⟨fun x hx => by simp [hx], fun x hx => by simp [hx]⟩
          · exact .inr ⟨_, by simp [hashed_concat], _, by simp [hashed_concat], hmessage, heq⟩

end Chain

end HashChain
