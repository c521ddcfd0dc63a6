import WordIndex.Main
import WordIndex.PoolSession
import WordIndex.Proofs.Outcomes
import WordIndex.Proofs.TableLayout
import WordIndex.Proofs.CheckedWalk
import WordIndex.Proofs.StoreValidation
import WordIndex.Proofs.VarintCodec
import WordIndex.Proofs.VarintGroups
import WordIndex.Proofs.PostingsCodec
import WordIndex.Proofs.NameOrder
import WordIndex.Proofs.EntryLayout
import WordIndex.Proofs.AdditionTables
import WordIndex.Proofs.IndexRoundTrip
import WordIndex.Proofs.OrderedLookup
import WordIndex.Proofs.PostingsScan
import WordIndex.Proofs.ScoreMaps
import WordIndex.Proofs.StoreContents
import WordIndex.Proofs.QueryMeaning
import WordIndex.Proofs.QueryAcceptance
import WordIndex.Proofs.MetFaults
import WordIndex.Proofs.AnswerFaults
import WordIndex.Proofs.WholeReplies
import WordIndex.Proofs.BuiltIndexAnswers
import WordIndex.Proofs.LeafFaults
import WordIndex.Proofs.CutEntries
import WordIndex.Proofs.CutIndex
import WordIndex.Proofs.StreamEnds
import WordIndex.Proofs.PoolSteps
import WordIndex.Proofs.PoolSafety
import WordIndex.Proofs.PoolGrowth
import WordIndex.Proofs.FailedStarts
import WordIndex.Proofs.PoolUses
import WordIndex.Proofs.SettledPool
import WordIndex.Proofs.WorkerRounds
import WordIndex.Proofs.SessionUses
import WordIndex.Proofs.PostingsCursor
import WordIndex.Proofs.OperandOrder
import WordIndex.Proofs.RankedPages
import WordIndex.Proofs.JoinedLine
import WordIndex.Proofs.Utf8Texts
import WordIndex.Proofs.ArrivingLine
import WordIndex.Proofs.IndexOption
import WordIndex.Proofs.SameAnswers
import WordIndex.Proofs.RoundedValues
import WordIndex.Proofs.DisplayRanks
import WordIndex.Proofs.QueryContext
import WordIndex.Proofs.LeafPostings
import WordIndex.Proofs.NarrowedScores
import WordIndex.Proofs.SingleWordStart
import WordIndex.Proofs.IgnoredWords
import WordIndex.Proofs.QuerySize
import WordIndex.Proofs.TokenReading
import WordIndex.Proofs.TokenTexts
import WordIndex.Proofs.QueryWords
import WordIndex.Proofs.PrintedQueries
import WordIndex.Proofs.WrittenAnswers
import WordIndex.Proofs.DumpedWord
import WordIndex.Proofs.WordWindow
import WordIndex.Proofs.XmlEscapes
import WordIndex.Proofs.XmlReading
import WordIndex.Proofs.ZeroCharacters
import WordIndex.Proofs.TokensPutBack
import WordIndex.Proofs.LetterKinds
import WordIndex.Proofs.StemmerPositions
import WordIndex.Proofs.SuffixTables
import WordIndex.Proofs.CheckedStemming
import WordIndex.Proofs.StemShape
import WordIndex.Proofs.LowercaseStarts
import WordIndex.Proofs.StartQueries
