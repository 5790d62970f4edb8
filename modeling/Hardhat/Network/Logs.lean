import Hardhat.Network.Indices

namespace Hardhat.Network

/-! # Log queries

`getLogs` walks the block numbers of the filter's range, from `fromBlock` while the
number is at most `toBlock`.  For a block the store holds under the number, whose bloom
may match the filter, it collects transaction by transaction the logs that `filterLogs`
keeps of the receipt the store holds for the transaction.  The bloom test and
`filterLogs` come from `./filter` and the logs from the receipt: all three are
parameters.  `getBlockByNumber` converts the number with `toNumber`, so a query whose
range passes `Number.MAX_SAFE_INTEGER` throws (`getLogs_eq`).

Over a store whose indices agree, a query returns exactly the logs of the receipts of
the transactions of the stored blocks of its range (`mem_getLogs_iff`), and removing a
block removes exactly its logs from every query (`getLogs_removeBlock`).
-/

/-- `FilterParams` of `node-types.ts`. -/
structure FilterParams (Address Topics : Type) where
  fromBlock : Nat
  toBlock : Nat
  addresses : List Address
  normalizedTopics : Topics

/-- What `getLogs` reads besides `ChainAccess`: `bloomFilter` of `./filter` on
`new Bloom(block.header.bloom)`, `receipt.logs`, and `filterLogs` of `./filter`. -/
structure LogAccess (Block RpcReceiptOutput RpcLogOutput Address Topics : Type) where
  bloomFilter : Block → List Address → Topics → Bool
  receiptLogs : RpcReceiptOutput → List RpcLogOutput
  filterLogs : List RpcLogOutput → FilterParams Address Topics → List RpcLogOutput

namespace BlockchainData

variable {Block TypedTransaction RpcReceiptOutput RpcLogOutput Address Topics : Type}
  (chain : ChainAccess Block TypedTransaction RpcReceiptOutput)
  (logAccess : LogAccess Block RpcReceiptOutput RpcLogOutput Address Topics)

/-- The inner loop of `getLogs`, over the transactions of a block. -/
def transactionLogs (data : BlockchainData Block TypedTransaction RpcReceiptOutput)
    (filterParams : FilterParams Address Topics) (block : Block) : List RpcLogOutput :=
  (chain.blockTransactions block).flatMap fun transaction =>
    match data.getTransactionReceipt (chain.transactionHash transaction) with
    | some receipt => logAccess.filterLogs (logAccess.receiptLogs receipt) filterParams
    | none => []

/-- What one iteration of `getLogs` collects from the block `getBlockByNumber` returned:
nothing for a missing block or one whose bloom rules the filter out. -/
def blockLogs (data : BlockchainData Block TypedTransaction RpcReceiptOutput)
    (filterParams : FilterParams Address Topics) : Option Block → List RpcLogOutput
  | none => []
  | some block =>
      if logAccess.bloomFilter block filterParams.addresses filterParams.normalizedTopics then
        transactionLogs chain logAccess data filterParams block
      else []

/-- The outer loop of `getLogs`, over `remaining` block numbers from `blockNumber`. -/
def getLogsFrom (data : BlockchainData Block TypedTransaction RpcReceiptOutput)
    (filterParams : FilterParams Address Topics) :
    Nat → Nat → Except String (List RpcLogOutput)
  | _, 0 => .ok []
  | blockNumber, remaining + 1 =>
      match data.getBlockByNumber blockNumber with
      | .error error => .error error
      | .ok block => (getLogsFrom data filterParams (blockNumber + 1) remaining).map
          (blockLogs chain logAccess data filterParams block ++ ·)

def getLogs (data : BlockchainData Block TypedTransaction RpcReceiptOutput)
    (filterParams : FilterParams Address Topics) : Except String (List RpcLogOutput) :=
  getLogsFrom chain logAccess data filterParams filterParams.fromBlock
    (filterParams.toBlock + 1 - filterParams.fromBlock)

variable {chain logAccess} {data : BlockchainData Block TypedTransaction RpcReceiptOutput}
  {filterParams : FilterParams Address Topics}

/-- The loop throws at the first number past `Number.MAX_SAFE_INTEGER`, and otherwise
collects the logs of every number in turn. -/
theorem getLogsFrom_eq (blockNumber remaining : Nat) :
    getLogsFrom chain logAccess data filterParams blockNumber remaining =
      if 0 < remaining ∧ maxSafeInteger < blockNumber + remaining - 1 then
        .error "Number can only safely store up to 53 bits"
      else .ok ((List.range' blockNumber remaining).flatMap fun number =>
        blockLogs chain logAccess data filterParams (data.blocksByNumber number)) := by
  induction remaining generalizing blockNumber with
  | zero => rfl
  | succ remaining induction =>
      rw [getLogsFrom, getBlockByNumber, toNumber, induction, List.range'_succ, List.flatMap_cons]
      split_ifs <;> first | rfl | omega

/-- `getLogs` throws exactly when its range is not empty and passes
`Number.MAX_SAFE_INTEGER`; otherwise it returns the logs of the numbers of the range, in
order. -/
theorem getLogs_eq :
    data.getLogs chain logAccess filterParams =
      if filterParams.fromBlock ≤ filterParams.toBlock ∧ maxSafeInteger < filterParams.toBlock then
        .error "Number can only safely store up to 53 bits"
      else .ok ((List.range' filterParams.fromBlock
          (filterParams.toBlock + 1 - filterParams.fromBlock)).flatMap fun number =>
        blockLogs chain logAccess data filterParams (data.blocksByNumber number)) := by
  rw [getLogs, getLogsFrom_eq]
  simp only [show (0 < filterParams.toBlock + 1 - filterParams.fromBlock ∧
      maxSafeInteger < filterParams.fromBlock + (filterParams.toBlock + 1 - filterParams.fromBlock) - 1) ↔
      (filterParams.fromBlock ≤ filterParams.toBlock ∧ maxSafeInteger < filterParams.toBlock)
    from by omega]

/-- A query throws exactly when its range is not empty and passes
`Number.MAX_SAFE_INTEGER`. -/
theorem getLogs_throws_iff :
    (∃ error, data.getLogs chain logAccess filterParams = .error error) ↔
      filterParams.fromBlock ≤ filterParams.toBlock ∧ maxSafeInteger < filterParams.toBlock := by
  rw [getLogs_eq]
  split_ifs with large
  · exact ⟨fun _ => large, fun _ => ⟨_, rfl⟩⟩
  · exact ⟨fun ⟨_, thrown⟩ => (by cases thrown), fun within => absurd within large⟩

theorem mem_transactionLogs {block : Block} {log : RpcLogOutput} :
    log ∈ transactionLogs chain logAccess data filterParams block ↔
      ∃ transaction ∈ chain.blockTransactions block, ∃ receipt,
        data.transactionReceipts (chain.transactionHash transaction) = some receipt ∧
        log ∈ logAccess.filterLogs (logAccess.receiptLogs receipt) filterParams := by
  simp only [transactionLogs, getTransactionReceipt, List.mem_flatMap]
  refine exists_congr fun transaction => and_congr_right fun _ => ?_
  cases data.transactionReceipts (chain.transactionHash transaction) <;> simp

/-- Over a store whose indices agree, a query returns the logs `filterLogs` keeps of the
receipts the store holds for the transactions of the stored blocks of its range whose
bloom may match. -/
theorem mem_getLogs_iff (consistent : IndicesConsistent chain data) {result : List RpcLogOutput}
    (found : data.getLogs chain logAccess filterParams = .ok result) {log : RpcLogOutput} :
    log ∈ result ↔ ∃ block, data.Stores chain block ∧
      filterParams.fromBlock ≤ chain.blockNumber block ∧
      chain.blockNumber block ≤ filterParams.toBlock ∧
      logAccess.bloomFilter block filterParams.addresses filterParams.normalizedTopics = true ∧
      ∃ transaction ∈ chain.blockTransactions block, ∃ receipt,
        data.transactionReceipts (chain.transactionHash transaction) = some receipt ∧
        log ∈ logAccess.filterLogs (logAccess.receiptLogs receipt) filterParams := by
  rw [getLogs_eq] at found
  split at found
  · cases found
  cases found
  simp only [List.mem_flatMap, List.mem_range'_1]
  constructor
  · rintro ⟨number, inRange, mem⟩
    cases stored : data.blocksByNumber number with
    | none => simp [blockLogs, stored] at mem
    | some block =>
        obtain ⟨numbered, stores⟩ := consistent.byNumber _ _ stored
        simp only [blockLogs, stored] at mem
        split at mem
        · exact ⟨block, stores, by omega, by omega, ‹_›, mem_transactionLogs.mp mem⟩
        · cases mem
  · rintro ⟨block, stores, first, last, bloom, logged⟩
    refine ⟨chain.blockNumber block, ⟨first, by omega⟩, ?_⟩
    rw [(consistent.byHash _ _ stores).2, blockLogs, if_pos bloom]
    exact mem_transactionLogs.mpr logged

/-- Removing a stored block leaves the logs of every other number: no other stored block
shares a transaction hash with it, so the receipts of their transactions stay. -/
theorem blockLogs_removeBlock (consistent : IndicesConsistent chain data) {block : Block}
    (stored : data.Stores chain block) (small : chain.blockNumber block ≤ maxSafeInteger)
    (number : Nat) :
    blockLogs chain logAccess (data.apply chain (.removeBlock block)) filterParams
        ((data.apply chain (.removeBlock block)).blocksByNumber number) =
      if number = chain.blockNumber block then []
      else blockLogs chain logAccess data filterParams (data.blocksByNumber number) := by
  rw [blocksByNumber_removeBlock small]
  split_ifs with same
  · rfl
  cases found : data.blocksByNumber number with
  | none => rfl
  | some other =>
      obtain ⟨numbered, otherStored⟩ := consistent.byNumber _ _ found
      have kept : ∀ transaction ∈ chain.blockTransactions other,
          (data.apply chain (.removeBlock block)).transactionReceipts
            (chain.transactionHash transaction) =
          data.transactionReceipts (chain.transactionHash transaction) := by
        intro transaction member
        rw [(transactionKeys_removeBlock small _).2.1, if_neg]
        intro shared
        have ofOther := (consistent.byTransaction _ other).mpr
          ⟨otherStored, List.mem_map_of_mem _ member⟩
        rw [(consistent.byTransaction _ block).mpr ⟨stored, shared⟩] at ofOther
        cases ofOther
        exact same numbered.symm
      have sameLogs : transactionLogs chain logAccess (data.apply chain (.removeBlock block))
          filterParams other = transactionLogs chain logAccess data filterParams other :=
        List.flatMap_congr fun transaction member => by
          simp only [getTransactionReceipt, kept transaction member]
      simp only [blockLogs, sameLogs]

/-- Removing a stored block removes exactly its logs from every query: the query returns
what it returned before, with the block's number skipped. -/
theorem getLogs_removeBlock (consistent : IndicesConsistent chain data) {block : Block}
    (stored : data.Stores chain block) (small : chain.blockNumber block ≤ maxSafeInteger) :
    (data.apply chain (.removeBlock block)).getLogs chain logAccess filterParams =
      if filterParams.fromBlock ≤ filterParams.toBlock ∧ maxSafeInteger < filterParams.toBlock then
        .error "Number can only safely store up to 53 bits"
      else .ok ((List.range' filterParams.fromBlock
          (filterParams.toBlock + 1 - filterParams.fromBlock)).flatMap fun number =>
        if number = chain.blockNumber block then []
        else blockLogs chain logAccess data filterParams (data.blocksByNumber number)) := by
  rw [getLogs_eq]
  simp only [blockLogs_removeBlock consistent stored small]

/-- A store with one block, `ab`, and the receipt of its one transaction, on a chain
whose blocks are their own hashes, numbered by their length, each with one transaction
of the same hash; every bloom may match, a receipt's one log is itself, and the filter
keeps every log. -/
def stringChain : ChainAccess String String String := ⟨id, String.length, fun block => [block], id, id⟩

def keepAllLogs : LogAccess String String String Unit Unit :=
  ⟨fun _ _ _ => true, fun receipt => [receipt], fun logs _ => logs⟩

def oneBlockStore : BlockchainData String String String :=
  (empty.apply stringChain (.addBlock "ab" 1)).apply stringChain (.addTransactionReceipt "ab")

theorem oneBlockStore_consistent : IndicesConsistent stringChain oneBlockStore :=
  ((indicesConsistent_empty stringChain).apply Function.injective_id Function.injective_id
    (.addBlock "ab" 1) ⟨rfl, fun _ _ => rfl⟩).apply Function.injective_id Function.injective_id
      (.addTransactionReceipt "ab") trivial

theorem oneBlockStore_logs :
    IndicesConsistent stringChain oneBlockStore ∧
      oneBlockStore.getLogs stringChain keepAllLogs ⟨0, 5, [], ()⟩ = .ok ["ab"] ∧
      ("ab" ∈ ["ab"] ↔ ∃ block, oneBlockStore.Stores stringChain block ∧
        0 ≤ stringChain.blockNumber block ∧ stringChain.blockNumber block ≤ 5 ∧
        keepAllLogs.bloomFilter block [] () = true ∧
        ∃ transaction ∈ stringChain.blockTransactions block, ∃ receipt,
          oneBlockStore.transactionReceipts (stringChain.transactionHash transaction) = some receipt ∧
          "ab" ∈ keepAllLogs.filterLogs (keepAllLogs.receiptLogs receipt) ⟨0, 5, [], ()⟩) :=
  ⟨oneBlockStore_consistent, rfl, mem_getLogs_iff oneBlockStore_consistent
    (show oneBlockStore.getLogs stringChain keepAllLogs ⟨0, 5, [], ()⟩ = .ok ["ab"] from rfl)⟩

theorem oneBlockStore_removeBlock_logs :
    IndicesConsistent stringChain oneBlockStore ∧ oneBlockStore.Stores stringChain "ab" ∧
      stringChain.blockNumber "ab" ≤ maxSafeInteger ∧
      (oneBlockStore.apply stringChain (.removeBlock "ab")).getLogs stringChain keepAllLogs
          ⟨0, 5, [], ()⟩ =
        if 0 ≤ 5 ∧ maxSafeInteger < 5 then .error "Number can only safely store up to 53 bits"
        else .ok ((List.range' 0 (5 + 1 - 0)).flatMap fun number =>
          if number = stringChain.blockNumber "ab" then []
          else blockLogs stringChain keepAllLogs oneBlockStore ⟨0, 5, [], ()⟩
            (oneBlockStore.blocksByNumber number)) :=
  ⟨oneBlockStore_consistent, rfl, by decide,
    getLogs_removeBlock oneBlockStore_consistent rfl (by decide)⟩

example :
    (oneBlockStore.apply stringChain (.removeBlock "ab")).getLogs stringChain keepAllLogs
      ⟨0, 5, [], ()⟩ = .ok [] :=
  rfl

end BlockchainData

end Hardhat.Network
