import ReferralForest.Proofs.Forest.Rebuilding
import ReferralForest.Proofs.Tool.Contents

/-!
# Registering over the Medium

A name takes up to 255 bytes so that one byte can hold its length. That is what relation keys need, which
hold two names with their lengths, but the medium takes keys of 511 bytes at most, and two names of
greatest size make a key of 513. All other keys are far shorter. So among the registrations that succeed
in memory the tool refuses those of two names of more than 508 bytes together, and no others.

## Main statements

* `Slot.length_key_relation`, `Slot.length_key_le` — the lengths of keys.
* `Ledger.StoredIn.fits_iff` — what a ledger becomes fits if the keys of its relations do.
* `Tool.register_over_medium` — registering over the medium and in memory.
-/

namespace ReferralForest

/-! ### The lengths of keys -/

namespace Slot

/-- **The key of a relation** holds two names with their lengths, and the family. -/
theorem length_key_relation (p c : AccountId) :
    (relation p c).key.length = p.bytes.length + c.bytes.length + 3 := by
  simp only [key, childrenOf, AccountId.sizedBytes, List.length_append, List.length_cons]
  omega

/-- No key is empty, and **all keys but those of relations** can be stored. -/
theorem length_key_le {slot : Slot} (other : ∀ p c, slot ≠ .relation p c) :
    1 ≤ slot.key.length ∧ slot.key.length ≤ Store.maxKeyLength := by
  cases slot with
  | record a =>
      have hle := a.length_bytes_le
      simp only [key, List.length_cons, Store.maxKeyLength]
      omega
  | relation p c => exact absurd rfl (other p c)
  | params => simp [key, Store.maxKeyLength]
  | downgrade t a =>
      have hle := a.length_bytes_le
      simp only [key, List.length_cons, List.length_append, Timestamp.length_bytes, Store.maxKeyLength]
      omega

end Slot

/-- **What a ledger becomes** fits the medium if the keys of its relations do. -/
theorem Ledger.StoredIn.fits_iff {L : Ledger} {m : SortedMap Key Value} (h : L.StoredIn m) :
    Store.Fits m ↔ ∀ p c, (p, c) ∈ L.relations →
      p.bytes.length + c.bytes.length + 3 ≤ Store.maxKeyLength := by
  constructor
  · intro fits p c hmem
    rw [← Slot.length_key_relation]
    exact fits _ ((h.contains_relation_iff p c).mpr hmem)
  · intro hrelations k hk
    obtain ⟨v, hv⟩ := Option.isSome_iff_exists.mp hk
    obtain ⟨slot, rfl⟩ := h.only k v hv
    cases slot with
    | relation p c =>
        rw [Slot.length_key_relation]
        exact hrelations p c ((h.contains_relation_iff p c).mp hk)
    | _ => exact (Slot.length_key_le (by simp)).2

/-! ### Registrations -/

/-- Registering an account marks its relation and no other. -/
theorem Move.Takes.relations_of_register {L L' : Ledger} {now : Timestamp} {p c : AccountId}
    (h : (Move.register now p c).Takes L L') : L'.relations = insert (p, c) L.relations := by
  cases h with
  | register fresh placed parent above =>
      exact above.relations_eq.trans (congrArg (insert (p, c)) parent.relations_eq)

namespace Tool

/-- What a registration leaves in memory fits the medium just if the key of the new relation does. -/
theorem Contents.fits_register_iff {host : Host} (quiet : host.Quiet) {m : SortedMap Key Value}
    {L : Ledger} (h : Contents m L) {now : Timestamp} {request : Registration} {p c : AccountId}
    (referrer : host.parseAddress request.referrer = .ok p)
    (referral : host.parseAddress request.referral = .ok c) {w : World}
    (registers : (World.ofStore (.ofEntries m)).run (Forest.register host now request) = (.ok (), w)) :
    Store.Fits w.store.view ↔ p.bytes.length + c.bytes.length + 3 ≤ Store.maxKeyLength := by
  obtain ⟨L', hw, p', c', hp, hc, htakes⟩ :=
    Forest.leads_register quiet request _ w () h.keeps registers
  obtain rfl := Except.ok.inj (referrer.symm.trans hp)
  obtain rfl := Except.ok.inj (referral.symm.trans hc)
  have hbefore := h.stored.fits_iff.mp h.fits
  rw [hw.stored.fits_iff, htakes.relations_of_register]
  constructor
  · exact fun hfits => hfits p c (Set.mem_insert _ _)
  · rintro hnew q d (heq | hmem)
    · obtain ⟨rfl, rfl⟩ := Prod.mk.inj heq
      exact hnew
    · exact hbefore q d hmem

/-- **Registering over contents.** Where a registration succeeds in memory on what the store holds, the
tool leaves the same as it, or is refused since the key of the new relation is too long. -/
theorem Contents.register_eq {config : Config} {host : Host} (offline : hostOf config = .ok host)
    {m : SortedMap Key Value} {L : Ledger} (h : Contents m L) {now : Timestamp}
    {request : Registration} {p c : AccountId}
    (referrer : host.parseAddress request.referrer = .ok p)
    (referral : host.parseAddress request.referral = .ok c) {w : World}
    (registers : (World.ofStore (.ofEntries m)).run (Forest.register host now request) = (.ok (), w)) :
    (Action.register request).run host now (.onMedium m) =
      if p.bytes.length + c.bytes.length + 3 ≤ Store.maxKeyLength then
        (.ok (some (Form.notice.list.write w.notices)), .onMedium w.store.view)
      else (.error (.persisting .keySize), .onMedium m) := by
  have hfits := h.fits_register_iff (quiet_of_hostOf offline) referrer referral registers
  have proper : (Forest.register host now request).Only Call.Proper :=
    ((Operation.register request).orderly_program (Action.aloof_of_hostOf offline) now).only
  rcases write_of_fits proper h.fits with ⟨e, hfails, -⟩ | ⟨w', hdirect, hends⟩
  · have hok : ((World.ofStore (.ofEntries m)).run (Forest.register host now request)).1 = .ok () :=
      congrArg Prod.fst registers
    rw [hok] at hfails
    contradiction
  · obtain rfl : w' = w := congrArg Prod.snd (hdirect.symm.trans registers)
    rcases hends with ⟨hfit, hwrite⟩ | ⟨hlong, hwrite⟩
    · rw [if_pos (hfits.mp hfit), Action.run, hwrite]
      rfl
    · rw [if_neg fun hle => hlong (hfits.mpr hle), Action.run, hwrite]
      rfl

/-- **Registering over the medium.** After any uses of the tool, and where a registration succeeds in
memory on what its store holds then, the tool carries it out with the same contents afterwards, as long
as the key of the new relation is not too long. If it is, the medium refuses it, and the store is as it
was. -/
theorem register_over_medium {config : Config} {host : Host} (offline : hostOf config = .ok host)
    (uses : List Use) (now : Timestamp) {request : Registration} {p c : AccountId}
    (referrer : host.parseAddress request.referrer = .ok p)
    (referral : host.parseAddress request.referral = .ok c) {w : World}
    (registers : (World.ofStore (.ofEntries (after uses).view)).run
      (Forest.register host now request) = (.ok (), w)) :
    (Action.register request).run host now (after uses) =
      if p.bytes.length + c.bytes.length + 3 ≤ Store.maxKeyLength then
        (.ok (some (Form.notice.list.write w.notices)), .onMedium w.store.view)
      else (.error (.persisting .keySize), after uses) := by
  obtain ⟨m, L, hstore, hcontents⟩ := contents_after uses
  rw [hstore] at registers ⊢
  exact hcontents.register_eq offline referrer referral registers

/-! ### Names of greatest size -/

namespace LongNames

/-- A name of so many bytes, up to 255. -/
def name (c : Char) (n : Nat) : String := String.ofList (List.replicate n c)

/-- A root with a name of greatest size. -/
def root : AccountId := ⟨name 'a' 255, by decide +kernel, by decide +kernel⟩

/-- The document of a forest with just that root, and no awards. -/
def genesis : Genesis :=
  ⟨⟨Vector.replicate maxDepth .zero, 60⟩, some [⟨root.text, .new⟩], [], []⟩

/-- A share of nothing as a text. -/
def share : List Char := "\x7b\"num\":0,\"den\":1\x7d".toList

/-- The characters of the document as a text. -/
def characters : List Char :=
  "\x7b\"params\":\x7b\"delegating_award\":[".toList ++
    ((List.replicate maxDepth share).intersperse [',']).flatten ++
    "],\"status_downgrade_period_secs\":60\x7d,\"top_level_accounts\":".toList ++
    "[\x7b\"address\":\"".toList ++ List.replicate 255 'a' ++ "\",\"status\":\"New\"\x7d],".toList ++
    "\"other_accounts\":[],\"downgrades\":[]\x7d".toList

/-- The document as a text. -/
def text : String := String.ofList characters

/-- The text is read as the document. -/
theorem read_text : (Document.parse text).bind Form.genesis.read = some genesis := by
  rw [Document.parse, Document.tokens?, show text.toList = characters from String.toList_ofList]
  decide +kernel

/-- An engine under the default configuration. -/
def host : Host where
  codec := .plain ""
  bank := .offline
  bondDenom := "uaxm"
  listeners := []
  authority := ⟨"gov", by decide, by decide⟩
  moduleAccount := Host.defaultModuleAccount

/-- The configuration is the default one. -/
theorem hostOf_default : hostOf .default = .ok host := rfl

/-- The document is read in. -/
def opening : Use := ⟨.default, ⟨0⟩, .initGenesis text⟩

/-- The store after that. -/
theorem after_opening :
    after [opening] = (write (Forest.importGenesis host genesis) (.onMedium .empty)).2 := by
  have hrun : opening.run (.onMedium .empty) =
      (Action.initGenesis text).run host ⟨0⟩ (.onMedium .empty) := rfl
  rw [after, after, hrun, Action.run, read_text]

/-- The request to register an account below the root. -/
def request (child : AccountId) : Registration := ⟨root.text, child.text⟩

/-- All names are addresses. -/
theorem host_accepts (a : AccountId) : host.Accepts a := Host.accepts_standalone a

/-- The referrer of the request is the root. -/
theorem referrer_request (child : AccountId) :
    host.parseAddress (request child).referrer = .ok root :=
  (host_accepts root).parseAddress

/-- The referral of the request is the account. -/
theorem referral_request (child : AccountId) :
    host.parseAddress (request child).referral = .ok child :=
  (host_accepts child).parseAddress

/-- The request carried out in memory, on what the store holds then. -/
def inMemory (child : AccountId) : Except Error Unit × World :=
  (World.ofStore (.ofEntries (after [opening]).view)).run (Forest.register host ⟨0⟩ (request child))

/-- An account with a name of 253 bytes. -/
def shorter : AccountId := ⟨name 'b' 253, by decide +kernel, by decide +kernel⟩

/-- An account with a name of greatest size. -/
def longer : AccountId := ⟨name 'b' 255, by decide +kernel, by decide +kernel⟩

/-- The registration of names of 255 and 253 bytes, whose relation has a key of 511. -/
theorem register_over_medium_long :
    hostOf .default = .ok host ∧ (inMemory shorter).1 = .ok () ∧
      (Action.register (request shorter)).run host ⟨0⟩ (after [opening]) =
        (.ok (some (Form.notice.list.write (inMemory shorter).2.notices)),
          .onMedium (inMemory shorter).2.store.view) := by
  have hsucceeds : (inMemory shorter).1 = .ok () := by
    rw [inMemory, after_opening]
    decide +kernel
  have hshort : root.bytes.length + shorter.bytes.length + 3 ≤ Store.maxKeyLength := by
    decide +kernel
  refine ⟨hostOf_default, hsucceeds, ?_⟩
  have hruns := Prod.fst_eq_iff.mp hsucceeds
  rw [register_over_medium hostOf_default [opening] ⟨0⟩ (referrer_request shorter)
    (referral_request shorter) hruns, if_pos hshort]

/-- The registration of names of 255 bytes, whose relation has a key of 513: it succeeds in memory, and
the medium refuses it. -/
theorem register_over_medium_refused :
    (inMemory longer).1 = .ok () ∧
      (Action.register (request longer)).run host ⟨0⟩ (after [opening]) =
        (.error (.persisting .keySize), after [opening]) := by
  have hsucceeds : (inMemory longer).1 = .ok () := by
    rw [inMemory, after_opening]
    decide +kernel
  have hlong : ¬ root.bytes.length + longer.bytes.length + 3 ≤ Store.maxKeyLength := by
    decide +kernel
  have hruns := Prod.fst_eq_iff.mp hsucceeds
  refine ⟨hsucceeds, ?_⟩
  obtain ⟨m, L, hstore, hcontents⟩ := contents_after [opening]
  rw [inMemory, hstore] at hruns
  rw [hstore, hcontents.register_eq hostOf_default (referrer_request longer)
    (referral_request longer) hruns, if_neg hlong]

end LongNames

end Tool

end ReferralForest
