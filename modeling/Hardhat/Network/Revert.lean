import Hardhat.Network.Indices

namespace Hardhat.Network

namespace BlockchainData

variable {Block TypedTransaction RpcReceiptOutput : Type}
  (chain : ChainAccess Block TypedTransaction RpcReceiptOutput)

/-- The calls made in turn. -/
def run (data : BlockchainData Block TypedTransaction RpcReceiptOutput)
    (calls : List (Call Block TypedTransaction RpcReceiptOutput)) :
    BlockchainData Block TypedTransaction RpcReceiptOutput :=
  calls.foldl (apply chain) data

/-- The call adds `block`, one of its transactions, or a receipt for one of them. -/
def Call.AddsFor : Call Block TypedTransaction RpcReceiptOutput → Block → Prop
  | .addBlock added _, block => added = block
  | .addTransaction transaction, block => transaction ∈ chain.blockTransactions block
  | .addTransactionReceipt receipt, block =>
      chain.receiptTransactionHash receipt ∈ (chain.blockTransactions block).map chain.transactionHash
  | _, _ => False

/-- No map of `data` holds a key of `block`. -/
structure Absent (data : BlockchainData Block TypedTransaction RpcReceiptOutput) (block : Block) :
    Prop where
  number : data.blocksByNumber (chain.blockNumber block) = none
  hash : data.blocksByHash (chain.blockHash block) = none
  totalDifficulty : data.totalDifficulty (chain.blockHash block) = none
  transactionKeys : ∀ transactionHash ∈ (chain.blockTransactions block).map chain.transactionHash,
    data.transactions transactionHash = none ∧ data.transactionReceipts transactionHash = none ∧
      data.blocksByTransactions transactionHash = none

variable {chain} {data : BlockchainData Block TypedTransaction RpcReceiptOutput} {block : Block}

theorem Call.ne_removeBlock {call : Call Block TypedTransaction RpcReceiptOutput}
    (adds : call.AddsFor chain block) (other : Block) : call ≠ .removeBlock other := by
  rintro rfl; exact adds

/-- A call that adds something for `block` writes only keys of `block`. -/
theorem apply_frame (data : BlockchainData Block TypedTransaction RpcReceiptOutput)
    {call : Call Block TypedTransaction RpcReceiptOutput} (adds : call.AddsFor chain block) :
    (∀ blockNumber, blockNumber ≠ chain.blockNumber block →
      (data.apply chain call).blocksByNumber blockNumber = data.blocksByNumber blockNumber) ∧
    (∀ blockHash, blockHash ≠ chain.blockHash block →
      (data.apply chain call).blocksByHash blockHash = data.blocksByHash blockHash ∧
        (data.apply chain call).totalDifficulty blockHash = data.totalDifficulty blockHash) ∧
    (∀ transactionHash ∉ (chain.blockTransactions block).map chain.transactionHash,
      (data.apply chain call).transactions transactionHash = data.transactions transactionHash ∧
        (data.apply chain call).transactionReceipts transactionHash =
          data.transactionReceipts transactionHash ∧
        (data.apply chain call).blocksByTransactions transactionHash =
          data.blocksByTransactions transactionHash) ∧
    (data.apply chain call).emptyBlockRanges = data.emptyBlockRanges := by
  cases call with
  | addBlock added totalDifficulty =>
      cases (adds : added = block)
      by_cases small : chain.blockNumber block ≤ maxSafeInteger
      · simp only [apply, addBlock_eq_ok chain small, addBlockTransactions_blocksByNumber,
          addBlockTransactions_blocksByHash, addBlockTransactions_totalDifficulty,
          addBlockTransactions_transactionReceipts, addBlockTransactions_emptyBlockRanges,
          addBlockTransactions_blocksByTransactions]
        refine ⟨fun _ other => Function.update_noteq other _ _,
          fun _ other => ⟨Function.update_noteq other _ _, Function.update_noteq other _ _⟩,
          fun _ outside => ⟨addBlockTransactions_transactions_of_not_mem outside, trivial, ?_⟩,
          trivial⟩
        rw [if_neg outside]
      · simp [apply, addBlock_eq_error chain small]
  | addTransaction transaction =>
      refine ⟨fun _ _ => rfl, fun _ _ => ⟨rfl, rfl⟩, fun _ outside => ⟨?_, rfl, rfl⟩, rfl⟩
      refine Function.update_noteq (fun same => outside ?_) _ _
      rw [same]; exact List.mem_map_of_mem _ adds
  | addTransactionReceipt receipt =>
      refine ⟨fun _ _ => rfl, fun _ _ => ⟨rfl, rfl⟩, fun _ outside => ⟨rfl, ?_, rfl⟩, rfl⟩
      refine Function.update_noteq (fun same => outside ?_) _ _
      rw [same]; exact adds
  | removeBlock | addEmptyBlockRange | splitAnyEmptyBlockRangesFor => exact adds.elim

variable (chain) in
/-- Where `data` may still differ from `origin`: only under a key of a block whose
removal is among the `remaining` calls. -/
structure Pending (origin data : BlockchainData Block TypedTransaction RpcReceiptOutput)
    (remaining : List (Call Block TypedTransaction RpcReceiptOutput)) : Prop where
  numbers : ∀ blockNumber, data.blocksByNumber blockNumber = origin.blocksByNumber blockNumber ∨
    ∃ block, .removeBlock block ∈ remaining ∧ chain.blockNumber block = blockNumber
  hashes : ∀ blockHash, (data.blocksByHash blockHash = origin.blocksByHash blockHash ∧
      data.totalDifficulty blockHash = origin.totalDifficulty blockHash) ∨
    ∃ block, .removeBlock block ∈ remaining ∧ chain.blockHash block = blockHash
  transactionHashes : ∀ transactionHash,
    (data.transactions transactionHash = origin.transactions transactionHash ∧
      data.transactionReceipts transactionHash = origin.transactionReceipts transactionHash ∧
      data.blocksByTransactions transactionHash = origin.blocksByTransactions transactionHash) ∨
    ∃ block, .removeBlock block ∈ remaining ∧
      transactionHash ∈ (chain.blockTransactions block).map chain.transactionHash
  emptyBlockRanges : data.emptyBlockRanges = origin.emptyBlockRanges

namespace Pending

variable {origin : BlockchainData Block TypedTransaction RpcReceiptOutput}
  {call : Call Block TypedTransaction RpcReceiptOutput}
  {rest : List (Call Block TypedTransaction RpcReceiptOutput)}

theorem start (calls : List (Call Block TypedTransaction RpcReceiptOutput)) :
    Pending chain origin origin calls :=
  ⟨fun _ => .inl rfl, fun _ => .inl ⟨rfl, rfl⟩, fun _ => .inl ⟨rfl, rfl, rfl⟩, rfl⟩

private theorem removal_later {holds : Block → Prop}
    (found : ∃ block, .removeBlock block ∈ call :: rest ∧ holds block)
    (notHere : ∀ block, call = .removeBlock block → ¬ holds block) :
    ∃ block, .removeBlock block ∈ rest ∧ holds block := by
  obtain ⟨block, member, holdsBlock⟩ := found
  rcases List.mem_cons.mp member with here | later
  · exact absurd holdsBlock (notHere block here.symm)
  · exact ⟨block, later, holdsBlock⟩

/-- A call that adds something for a block removed later keeps the invariant. -/
theorem addition (pending : Pending chain origin data (call :: rest))
    (adds : call.AddsFor chain block) (removed : .removeBlock block ∈ rest) :
    Pending chain origin (data.apply chain call) rest := by
  obtain ⟨numbers, hashes, transactionHashes, ranges⟩ := apply_frame data adds
  have notHere : ∀ {holds : Block → Prop} other, call = .removeBlock other → ¬ holds other :=
    fun other same _ => Call.ne_removeBlock adds other same
  refine ⟨fun blockNumber => ?_, fun blockHash => ?_, fun transactionHash => ?_,
    ranges.trans pending.emptyBlockRanges⟩
  · by_cases mine : blockNumber = chain.blockNumber block
    · exact .inr ⟨block, removed, mine.symm⟩
    · rw [numbers blockNumber mine]
      exact (pending.numbers blockNumber).imp_right fun found => removal_later found notHere
  · by_cases mine : blockHash = chain.blockHash block
    · exact .inr ⟨block, removed, mine.symm⟩
    · rw [(hashes blockHash mine).1, (hashes blockHash mine).2]
      exact (pending.hashes blockHash).imp_right fun found => removal_later found notHere
  · by_cases mine : transactionHash ∈ (chain.blockTransactions block).map chain.transactionHash
    · exact .inr ⟨block, removed, mine⟩
    · obtain ⟨sameTransactions, sameReceipts, sameBlocks⟩ := transactionHashes transactionHash mine
      rw [sameTransactions, sameReceipts, sameBlocks]
      exact (pending.transactionHashes transactionHash).imp_right
        fun found => removal_later found notHere

/-- Removing a block absent from `origin` puts every key of the block back as in `origin`. -/
theorem removal (pending : Pending chain origin data (.removeBlock block :: rest))
    (small : chain.blockNumber block ≤ maxSafeInteger) (absent : origin.Absent chain block) :
    Pending chain origin (data.apply chain (.removeBlock block)) rest := by
  simp only [apply, removeBlock_eq_ok chain small]
  have notHere : ∀ {holds : Block → Prop}, ¬ holds block → ∀ other,
      (Call.removeBlock block : Call Block TypedTransaction RpcReceiptOutput) =
        .removeBlock other → ¬ holds other := by
    intro _ notHolds other same; cases same; exact notHolds
  refine ⟨fun blockNumber => ?_, fun blockHash => ?_, fun transactionHash => ?_,
    by simpa using pending.emptyBlockRanges⟩
  · simp only [removeBlockTransactions_blocksByNumber, Function.update_apply]
    split
    · rename_i mine; exact .inl (by rw [mine, absent.number])
    · rename_i other
      exact (pending.numbers blockNumber).imp_right fun found =>
        removal_later found (notHere fun mine => other mine.symm)
  · simp only [removeBlockTransactions_blocksByHash, removeBlockTransactions_totalDifficulty,
      Function.update_apply]
    split
    · rename_i mine; exact .inl (by rw [mine, absent.hash, absent.totalDifficulty]; simp)
    · rename_i other
      exact (pending.hashes blockHash).imp_right fun found =>
        removal_later found (notHere fun mine => other mine.symm)
  · rw [removeBlockTransactions_keys.1, removeBlockTransactions_keys.2.1,
      removeBlockTransactions_keys.2.2]
    split
    · rename_i mine
      obtain ⟨noTransaction, noReceipt, noBlock⟩ := absent.transactionKeys _ mine
      exact .inl ⟨noTransaction.symm, noReceipt.symm, noBlock.symm⟩
    · rename_i other
      exact (pending.transactionHashes transactionHash).imp_right fun found =>
        removal_later found (notHere other)

/-- Over a run where every removed block is small and absent from `origin`, and every
other call adds something for a block removed later, the invariant reaches the end. -/
theorem run {calls : List (Call Block TypedTransaction RpcReceiptOutput)}
    (pending : Pending chain origin data calls)
    (removals : ∀ block, .removeBlock block ∈ calls →
      chain.blockNumber block ≤ maxSafeInteger ∧ origin.Absent chain block)
    (additions : ∀ before call after, calls = before ++ call :: after →
      (∀ block, call ≠ .removeBlock block) →
        ∃ block, call.AddsFor chain block ∧ .removeBlock block ∈ after) :
    Pending chain origin (data.run chain calls) [] := by
  induction calls generalizing data with
  | nil => exact pending
  | cons call rest ih =>
      have next : Pending chain origin (data.apply chain call) rest := by
        by_cases removal : ∃ block, call = .removeBlock block
        · obtain ⟨block, rfl⟩ := removal
          obtain ⟨small, absent⟩ := removals block (List.mem_cons_self _ _)
          exact pending.removal small absent
        · push_neg at removal
          obtain ⟨block, adds, removed⟩ := additions [] call rest rfl removal
          exact pending.addition adds removed
      exact ih next (fun block member => removals block (List.mem_cons_of_mem _ member))
        fun before later after split => additions (call :: before) later after (by rw [split]; rfl)

theorem eq_of_nil (pending : Pending chain origin data []) : data = origin := by
  have numbers := funext fun blockNumber => (pending.numbers blockNumber).resolve_right (by simp)
  have hashes := fun blockHash => (pending.hashes blockHash).resolve_right (by simp)
  have transactionHashes := fun transactionHash =>
    (pending.transactionHashes transactionHash).resolve_right (by simp)
  have ranges := pending.emptyBlockRanges
  cases data; cases origin
  simp only at numbers hashes transactionHashes ranges
  simp only [BlockchainData.mk.injEq]
  exact ⟨numbers, funext fun blockHash => (hashes blockHash).1,
    funext fun transactionHash => (transactionHashes transactionHash).2.2,
    funext fun transactionHash => (transactionHashes transactionHash).1,
    funext fun transactionHash => (transactionHashes transactionHash).2.1,
    funext fun blockHash => (hashes blockHash).2, ranges⟩

end Pending

/-- Blocks whose numbers fit in 53 bits and whose keys are absent from `origin` leave no
trace: after any calls that add them, their transactions and receipts, each followed by
the removal of a block it belongs to, and removals of those blocks, the data is `origin`
again. -/
theorem run_eq_of_removed (origin : BlockchainData Block TypedTransaction RpcReceiptOutput)
    (blocks : List Block) (small : ∀ block ∈ blocks, chain.blockNumber block ≤ maxSafeInteger)
    (absent : ∀ block ∈ blocks, origin.Absent chain block)
    (calls : List (Call Block TypedTransaction RpcReceiptOutput))
    (removals : ∀ block, .removeBlock block ∈ calls → block ∈ blocks)
    (additions : ∀ before call after, calls = before ++ call :: after →
      (∀ block, call ≠ .removeBlock block) →
        ∃ block, call.AddsFor chain block ∧ .removeBlock block ∈ after) :
    origin.run chain calls = origin :=
  ((Pending.start calls).run (fun block member =>
    ⟨small block (removals block member), absent block (removals block member)⟩) additions).eq_of_nil

/-- Calls that each add something for one block, followed by the removal of that block,
keep the discipline of `run_eq_of_removed`: every call but the removal is followed by it. -/
theorem followedByRemoval_of_addsFor {block : Block}
    {calls : List (Call Block TypedTransaction RpcReceiptOutput)}
    (adds : ∀ call ∈ calls, call.AddsFor chain block) :
    ∀ before call after, calls ++ [.removeBlock block] = before ++ call :: after →
      (∀ other, call ≠ .removeBlock other) →
        ∃ other, call.AddsFor chain other ∧ .removeBlock other ∈ after := by
  intro before call after split notRemoval
  rcases List.eq_nil_or_concat after with rfl | ⟨middle, last, rfl⟩
  · have removal := (List.append_inj' split rfl).2
    simp only [List.cons.injEq, and_true] at removal
    exact absurd removal.symm (notRemoval block)
  · rw [List.concat_eq_append, ← List.cons_append, ← List.append_assoc] at split
    obtain ⟨same, removal⟩ := List.append_inj' split rfl
    refine ⟨block, adds call (same ▸ List.mem_append_right _ (List.mem_cons_self _ _)), ?_⟩
    simp only [List.cons.injEq, and_true] at removal
    subst removal
    simp

/-- The data after block `a` of `namedChain` was added. -/
def oneBlockData : BlockchainData String String String := empty.apply namedChain (.addBlock "a" 1)

/-- Block `bb` is added, its transaction and a receipt for it are added again, then the
block is removed. -/
def bbCalls : List (Call String String String) :=
  [.addBlock "bb" 2, .addTransaction "bb-tx", .addTransactionReceipt "bb-tx"]

theorem run_eq_of_removed_one_block :
    ((∀ block ∈ ["bb"], namedChain.blockNumber block ≤ maxSafeInteger) ∧
      (∀ block ∈ ["bb"], oneBlockData.Absent namedChain block) ∧
      (∀ block, .removeBlock block ∈ bbCalls ++ [.removeBlock "bb"] → block ∈ ["bb"]) ∧
      (∀ before call after, bbCalls ++ [.removeBlock "bb"] = before ++ call :: after →
        (∀ block, call ≠ .removeBlock block) →
          ∃ block, call.AddsFor namedChain block ∧ .removeBlock block ∈ after)) ∧
    oneBlockData.run namedChain (bbCalls ++ [.removeBlock "bb"]) = oneBlockData := by
  have small : ∀ block ∈ ["bb"], namedChain.blockNumber block ≤ maxSafeInteger := by
    simp only [List.mem_singleton, forall_eq]
    decide
  have absent : ∀ block ∈ ["bb"], oneBlockData.Absent namedChain block := by
    simp only [List.mem_singleton, forall_eq]
    exact ⟨by decide, by decide, by decide, by decide⟩
  have removals : ∀ block, .removeBlock block ∈ bbCalls ++ [.removeBlock "bb"] → block ∈ ["bb"] := by
    simp [bbCalls]
  have adds : ∀ call ∈ bbCalls, call.AddsFor namedChain "bb" := by
    intro call mem
    simp only [bbCalls, List.mem_cons, List.not_mem_nil, or_false] at mem
    rcases mem with rfl | rfl | rfl
    · rfl
    · show "bb-tx" ∈ namedChain.blockTransactions "bb"
      decide
    · show "bb-tx" ∈ (namedChain.blockTransactions "bb").map namedChain.transactionHash
      decide
  have additions := followedByRemoval_of_addsFor adds
  exact ⟨⟨small, absent, removals, additions⟩,
    run_eq_of_removed _ ["bb"] small absent _ removals additions⟩

/-- A chain whose every block has the hash `0x01`, its own number, and one transaction
`0x02`. -/
def oneTransactionChain : ChainAccess Nat String String :=
  ⟨fun _ => "0x01", id, fun _ => ["0x02"], id, id⟩

/-- A transaction of block `2 ^ 53` is added, then the block is removed. -/
def largeBlockCalls : List (Call Nat String String) :=
  [.addTransaction "0x02", .removeBlock (maxSafeInteger + 1)]

/-- Without the bound on block numbers the round trip fails: `removeBlock` throws in
`toNumber` for block `2 ^ 53`, and the transaction added for it stays. -/
theorem run_ne_of_large_blockNumber :
    (∀ block ∈ [maxSafeInteger + 1], (empty : BlockchainData Nat String String).Absent oneTransactionChain block) ∧
      (∀ block, .removeBlock block ∈ largeBlockCalls → block ∈ [maxSafeInteger + 1]) ∧
      (∀ before call after, largeBlockCalls = before ++ call :: after →
        (∀ block, call ≠ .removeBlock block) →
          ∃ block, call.AddsFor oneTransactionChain block ∧ .removeBlock block ∈ after) ∧
      (empty : BlockchainData Nat String String).run oneTransactionChain largeBlockCalls ≠ empty := by
  refine ⟨fun _ _ => ⟨rfl, rfl, rfl, fun _ _ => ⟨rfl, rfl, rfl⟩⟩, by simp [largeBlockCalls], ?_, ?_⟩
  · intro before call after split notRemoval
    rcases before with _ | ⟨first, _ | ⟨second, rest⟩⟩ <;> simp [largeBlockCalls] at split
    · obtain ⟨rfl, rfl⟩ := split
      exact ⟨maxSafeInteger + 1, List.mem_singleton_self _, List.mem_singleton_self _⟩
    · exact absurd split.2.1.symm (notRemoval _)
  · have large : ¬ oneTransactionChain.blockNumber (maxSafeInteger + 1) ≤ maxSafeInteger :=
      Nat.not_succ_le_self _
    have result : (empty : BlockchainData Nat String String).run oneTransactionChain
        largeBlockCalls = empty.addTransaction oneTransactionChain "0x02" := by
      simp only [largeBlockCalls, run, List.foldl_cons, List.foldl_nil, apply,
        removeBlock_eq_error oneTransactionChain large]
    rw [result]
    intro same
    have stored := congrFun (congrArg BlockchainData.transactions same) "0x02"
    simp [addTransaction, empty, oneTransactionChain] at stored

end BlockchainData

end Hardhat.Network
