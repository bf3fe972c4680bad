import ReferralForest.Forest.Downgrades
import ReferralForest.Proofs.Cascade.Closure

/-!
# Notices as a Chronicle

Somebody who reads the notices and nothing else can know the tier of every account and when the account
will lose it. Such a reader keeps a *board*, on which each notice changes one posting; a notice that
cannot be true of the board as it is stops the reader. What is proved here is that the notices a cascade
tells never stop a reader whose board shows the records before, and that his board shows the records
after.

## Main definitions

* `Posting`, `Board`, `Roster.board` — what is shown of an account, and of all.
* `Board.read?`, `Board.follow?` — what a reader makes of a notice, and of notices one after another.
* `Draft.Posts` — the notices told on the way are about one record and follow it.
* `Draft.Chronicles` — the notices told on the way follow all records.

## Main statements

* `Cascade.posts_of_yields_refresh` — a status check tells what it does to the record.
* `Cascade.chronicles_of_yields_changeStake`, `Cascade.chronicles_of_yields_downgrade` — stake changes and
  downgrades tell what they do to all records.
-/

namespace ReferralForest

/-- What is shown of an account: its tier, and when the account will lose it if that is scheduled. -/
abbrev Posting := Status × Option Timestamp

/-- What is shown of all accounts. -/
abbrev Board := AccountId → Option Posting

/-- What is shown of a record. -/
def Record.posting (r : Record) : Posting := (r.status, r.downgradeAt)

/-- **What is shown of all records.** -/
def Roster.board (m : Roster) : Board := fun a => (m.get? a).map Record.posting

namespace Board

/-- The board with another posting for an account. -/
def post (b : Board) (a : AccountId) (p : Posting) : Board := Function.update b a (some p)

/-- **What a reader makes of a notice.** A change of tier must begin at the tier shown, and takes the
schedule off if it leads downwards; a schedule must be the first, and a cancellation must cancel one.
Fees are none of his business. -/
def read? (b : Board) : Notice → Option Board
  | .statusUpdated a before after => do
    let (status, scheduled) ← b a
    if status = before then
      return b.post a (after, if after < before then none else scheduled)
    else none
  | .willBeDowngraded a time => do
    let (status, scheduled) ← b a
    if scheduled = none then return b.post a (status, some time) else none
  | .downgradeCanceled a => do
    let (status, scheduled) ← b a
    if scheduled = none then none else return b.post a (status, none)
  | .feePaid .. => some b

/-- **What a reader makes of notices** one after another. -/
def follow? (b : Board) (ns : List Notice) : Option Board := ns.foldlM read? b

/-- Without a notice the board stays. -/
@[simp] theorem follow?_nil (b : Board) : b.follow? [] = some b := rfl

/-- A single notice is read. -/
@[simp] theorem follow?_singleton (b : Board) (n : Notice) : b.follow? [n] = b.read? n := by
  simp [follow?]

/-- Reading on. -/
theorem follow?_append (b : Board) (ns ms : List Notice) :
    b.follow? (ns ++ ms) = (b.follow? ns).bind fun b' => b'.follow? ms :=
  List.foldlM_append ..

variable {b : Board} {a : AccountId} {p q : Posting}

/-- An account has the posting it was given last. -/
@[simp] theorem post_self : b.post a p a = some p := Function.update_self ..

/-- The last posting counts. -/
@[simp] theorem post_post : (b.post a p).post a q = b.post a q := Function.update_idem ..

/-- Posting what is shown already. -/
theorem post_eq_self (h : b a = some p) : b.post a p = b := by
  rw [post, ← h]
  exact Function.update_eq_self a b

end Board

/-- The board after a record is written. -/
theorem Roster.board_insert (m : Roster) (a : AccountId) (r : Record) :
    Roster.board (m.insert a r) = (Roster.board m).post a r.posting := by
  funext b
  by_cases hb : b = a
  · rw [hb, Board.post_self, board, m.get?_insert_self, Option.map_some]
  · rw [Board.post, Function.update_of_ne hb, board, board, m.get?_insert_of_ne r hb]

/-- The tier below is lower. -/
theorem Status.lt_of_prev? {s below : Status} (h : s.prev? = some below) : below < s := by
  cases s with
  | unspecified | new => contradiction
  | _ =>
      obtain rfl := Option.some.inj h
      decide

/-! ### Drafts -/

/-- **The notices told on the way from a draft to another** are about one record and follow it, and no
record is put. -/
def Draft.Posts (a : AccountId) (r r' : Record) (D D' : Draft) : Prop :=
  D'.records = D.records ∧ ∃ ns, D'.notices = D.notices ++ ns ∧
    ∀ b : Board, b a = some r.posting → b.follow? ns = some (b.post a r'.posting)

/-- **The notices told on the way from a draft to another** follow all records. -/
def Draft.Chronicles (D D' : Draft) : Prop :=
  ∃ ns, D'.notices = D.notices ++ ns ∧
    (Roster.board D.records).follow? ns = some (Roster.board D'.records)

namespace Draft

variable {D D₁ D' : Draft} {a : AccountId} {r r₁ r' : Record}

/-- A change that does not show and of which nothing is told. -/
theorem Posts.of_eq (records : D'.records = D.records) (notices : D'.notices = D.notices)
    (h : r'.posting = r.posting) : Posts a r r' D D' := by
  refine ⟨records, [], by rw [notices, List.append_nil], fun b hb => ?_⟩
  rw [h, Board.post_eq_self hb, Board.follow?_nil]

/-- A change of which one notice is told. -/
theorem Posts.of_tell {n : Notice} (records : D'.records = D.records)
    (notices : D'.notices = D.notices ++ [n])
    (read : ∀ b : Board, b a = some r.posting → b.read? n = some (b.post a r'.posting)) :
    Posts a r r' D D' :=
  ⟨records, [n], notices, fun b hb => by rw [Board.follow?_singleton, read b hb]⟩

/-- Notices about a record may be told in two parts. -/
theorem Posts.trans (h : Posts a r r₁ D D₁) (h' : Posts a r₁ r' D₁ D') : Posts a r r' D D' := by
  obtain ⟨hrecords, ns, hns, hfollow⟩ := h
  obtain ⟨hrecords', ms, hms, hfollow'⟩ := h'
  refine ⟨hrecords'.trans hrecords, ns ++ ms, by rw [hms, hns, List.append_assoc], fun b hb => ?_⟩
  rw [Board.follow?_append, hfollow b hb, Option.bind_some, hfollow' _ Board.post_self, Board.post_post]

/-- A rise is told from where to where. -/
theorem Posts.rise {s : Status} (rises : s = r.status ∨ r.status < s) :
    Posts a r { r with status := s } D (D.rise a r.status s) := by
  rw [Draft.rise]
  split
  next hlt =>
      have hup : ¬ s < r.status := Nat.lt_asymm hlt
      refine .of_tell rfl rfl fun b hb => ?_
      simp [Board.read?, hb, Record.posting, hup]
  next hnot =>
      obtain rfl := rises.resolve_right hnot
      exact .of_eq rfl rfl rfl

/-- Where nothing happens there is nothing to follow. -/
theorem Chronicles.refl (D : Draft) : D.Chronicles D := ⟨[], (List.append_nil _).symm, rfl⟩

/-- Notices may be followed in two parts. -/
theorem Chronicles.trans (h : D.Chronicles D₁) (h' : D₁.Chronicles D') : D.Chronicles D' := by
  obtain ⟨ns, hns, hfollow⟩ := h
  obtain ⟨ms, hms, hfollow'⟩ := h'
  refine ⟨ns ++ ms, by rw [hms, hns, List.append_assoc], ?_⟩
  rw [Board.follow?_append, hfollow, Option.bind_some, hfollow']

/-- **Putting the record that the notices follow.** -/
theorem Posts.chronicles (h : Posts a r r' D D') (found : D.records.get? a = some r) :
    D.Chronicles (D'.withLedger (D'.toLedger.put a r')) := by
  obtain ⟨hrecords, ns, hns, hfollow⟩ := h
  refine ⟨ns, hns, ?_⟩
  have hshown : Roster.board D.records a = some r.posting := by rw [Roster.board, found, Option.map_some]
  rw [hfollow _ hshown, toLedger_withLedger, Ledger.put, hrecords, Roster.board_insert]

end Draft

/-! ### Status checks -/

namespace Cascade

open Draft (Posts Chronicles)

variable {α β : Type} {D D' : Draft} {now : Timestamp} {a : AccountId} {r r' : Record}

/-- **A status check tells what it does** to the record. -/
theorem posts_of_yields_refresh (h : (refresh now a r).Yields D r' D') : Posts a r r' D D' := by
  have hclimb := climb_eq_or_lt r r.status
  cases yields_refresh.mp h with
  | met => exact .rise hclimb
  | @canceled t _ _ hr =>
      have hcancel : Posts a r { r with downgradeAt := none } D
          ((D.withLedger (D.dequeue t a)).tell (.downgradeCanceled a)) :=
        .of_tell rfl rfl fun b hb => by simp [Board.read?, hb, Record.posting, hr]
      exact hcancel.trans (.rise hclimb)
  | waiting => exact .of_eq rfl rfl rfl
  | failing _ hr =>
      refine .of_tell rfl rfl fun b hb => ?_
      simp [Board.read?, hb, Record.posting, hr]

/-- A check tells what it does to the record, if there is one. -/
theorem posts_of_yields_check {checkAt : Option Timestamp} (h : (check checkAt a r).Yields D r' D') :
    Posts a r r' D D' := by
  cases checkAt with
  | none =>
      obtain ⟨rfl, rfl⟩ := yields_done.mp h
      exact .of_eq rfl rfl rfl
  | some now => exact posts_of_yields_refresh h

/-- **An update tells what it does** to the records, if its change does. -/
theorem chronicles_of_yields_update {checkAt : Option Timestamp}
    {change : Record → Cascade (β × Record)} {result : Option β}
    (h : (update checkAt a change).Yields D result D')
    (posts : ∀ r, D.records.get? a = some r → ∀ b r₁ D₁, (change r.normalize).Yields D (b, r₁) D₁ →
      Posts a r.normalize r₁ D D₁) : D.Chronicles D' := by
  obtain ⟨-, -, rfl⟩ | ⟨r, b, r₁, D₁, r₂, D₂, hr, hchange, hcheck, -, rfl⟩ := steps_of_yields_update h
  · exact .refl D'
  · have hnormalize : Posts a r r.normalize D D := .of_eq rfl rfl rfl
    have hchanged := hnormalize.trans (posts r hr b r₁ D₁ hchange)
    exact (hchanged.trans (posts_of_yields_check hcheck)).chronicles hr

/-! ### Stake changes -/

/-- A change of a record that does not show and of which nothing is told. -/
def Unseen (change : Record → Cascade (β × Record)) : Prop :=
  ∀ D r b r' D', (change r).Yields D (b, r') D' → D' = D ∧ r'.posting = r.posting

/-- An update of what does not show tells what its check does. -/
theorem Unseen.chronicles {checkAt : Option Timestamp} {change : Record → Cascade (β × Record)}
    (unseen : Unseen change) {result : Option β} (h : (update checkAt a change).Yields D result D') :
    D.Chronicles D' := by
  refine chronicles_of_yields_update h fun r _ b r₁ D₁ hchange => ?_
  obtain ⟨rfl, hposting⟩ := unseen D r.normalize b r₁ D₁ hchange
  exact .of_eq rfl rfl hposting

/-- Moving a generation counter does not show. -/
theorem posting_of_shiftGeneration? {generation : Nat} {delta : Int}
    (h : r.shiftGeneration? generation delta = some r') : r'.posting = r.posting := by
  obtain ⟨_, _, -, -, rfl⟩ := shiftGeneration?_eq_some h
  rfl

/-- **No adjustment of a record shows.** -/
theorem Adjusts.unseen {change : Record → Cascade (β × Record)} (h : Adjusts change) :
    Unseen change := by
  intro D r b r' D' hchange
  cases h with
  | addTeamStake delta =>
      obtain ⟨rfl, -, stake, -, rfl⟩ := yields_addTeamStake hchange
      exact ⟨rfl, rfl⟩
  | flipRecord active delta =>
      obtain ⟨rfl, ⟨-, -, rfl⟩ | ⟨-, hshift, -⟩⟩ := yields_flipRecord hchange
      · exact ⟨rfl, rfl⟩
      · exact ⟨rfl, (posting_of_shiftGeneration? hshift).trans rfl⟩
  | countChild child active delta =>
      obtain ⟨rfl, tallies, -, rfl, -⟩ := yields_countChild hchange
      exact ⟨rfl, rfl⟩
  | countByThree delta =>
      obtain ⟨rfl, tallies, -, rfl⟩ := yields_countByThree hchange
      exact ⟨rfl, rfl⟩
  | countDescendant generation delta =>
      obtain ⟨rfl, hshift, -⟩ := yields_countDescendant hchange
      exact ⟨rfl, posting_of_shiftGeneration? hshift⟩
  | reclassify before after =>
      obtain ⟨rfl, tallies, -, rfl⟩ := yields_reclassify hchange
      exact ⟨rfl, rfl⟩

/-- The own stake does not show. -/
theorem unseen_addSelfStake (delta : Int) : Unseen (addSelfStake delta) := by
  intro D r b r' D' h
  obtain ⟨rfl, stake, -, rfl, -⟩ := yields_addSelfStake h
  exact ⟨rfl, rfl⟩

/-- **The cascades that tell what they do** to the records. -/
def Candid (c : Cascade α) : Prop := ∀ D a D', c.Yields D a D' → D.Chronicles D'

/-- Cascades made of adjustments tell what they do. -/
theorem closed_candid : Closed fun _ c => c.Candid where
  done a D b D' h := by
    obtain ⟨-, rfl⟩ := yields_done.mp h
    exact .refl D'
  bind hc hf D b D' h := by
    obtain ⟨a, D₁, hfirst, hrest⟩ := yields_bind.mp h
    exact (hc D a D₁ hfirst).trans (hf a D₁ b D' hrest)
  announce a D u D' h := by
    obtain rfl := yields_announce.mp h
    exact .refl D
  cycle a D u D' h := (yields_fail.mp h).elim
  adjust h _ _ _ _ _ := h.unseen.chronicles

/-- **A stake change tells what it does** to all records. -/
theorem chronicles_of_yields_changeStake {delta : Int} {bound : Nat} {u : Unit}
    (h : (changeStake now a delta bound).Yields D u D') : D.Chronicles D' :=
  closed_candid.changeStake bound (fun _ _ _ => (unseen_addSelfStake delta).chronicles) D u D' h

/-! ### Downgrades -/

/-- Lowering tells of the lower tier, if there is one. -/
theorem posts_of_yields_lower {b : Bool} (h : (lower now a r).Yields D (b, r') D')
    (lowers : r.downgradeAt ≠ none → r.status.prev? ≠ none) : Posts a r r' D D' := by
  have hsame : (b, r') = (false, r) → D' = D → Posts a r r' D D' := by
    rintro hb rfl
    obtain ⟨-, rfl⟩ := Prod.mk.inj hb
    exact .of_eq rfl rfl rfl
  rw [lower] at h
  cases hr : r.downgradeAt with
  | none =>
      rw [hr] at h
      exact hsame (yields_done.mp h).1 (yields_done.mp h).2
  | some t =>
      rw [hr] at h
      dsimp only at h
      split at h
      · exact hsame (yields_done.mp h).1 (yields_done.mp h).2
      · obtain ⟨below, hbelow⟩ := Option.ne_none_iff_exists'.mp (lowers (by simp [hr]))
        rw [hbelow] at h
        simp only [yields_bind, yields_tell, Dialogue.pure_def, yields_done] at h
        obtain ⟨_, _, rfl, hb, rfl⟩ := h
        obtain ⟨-, rfl⟩ := Prod.mk.inj hb
        have hdown : below < r.status := Status.lt_of_prev? hbelow
        refine .of_tell rfl rfl fun b hb => ?_
        simp [Board.read?, hb, Record.posting, hdown]

/-- **A downgrade tells what it does** to all records, if nobody is scheduled to lose the lowest
tier. -/
theorem chronicles_of_yields_downgrade {u : Unit} (h : (downgrade now a).Yields D u D')
    (lowers : ∀ r, D.records.get? a = some r → r.downgradeAt ≠ none → r.status.prev? ≠ none) :
    D.Chronicles D' := by
  obtain ⟨lowered, D₁, hupdate, hrest⟩ := yields_bind.mp h
  have hfirst : D.Chronicles D₁ := chronicles_of_yields_update hupdate
    fun r hr b r₁ D₁ hchange => posts_of_yields_lower hchange (lowers r hr)
  refine hfirst.trans ?_
  split at hrest
  · obtain rfl := yields_announce.mp hrest
    exact .refl D₁
  · obtain ⟨-, rfl⟩ := yields_done.mp hrest
    exact .refl D'

end Cascade

end ReferralForest
