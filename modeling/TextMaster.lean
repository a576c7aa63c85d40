import TextMaster.RequestIndependence
import TextMaster.PromptBatch
import TextMaster.GreedyDecoding
import TextMaster.RequestRecord
import TextMaster.ResultsView
import TextMaster.HistoryDurability
import TextMaster.HistoryRoundTrip
import TextMaster.AnalysisDispatch
import TextMaster.PageNavigation
import TextMaster.SessionBalance
import TextMaster.SessionHistory
import TextMaster.SessionAttribution
import TextMaster.SessionRequest
import TextMaster.Application
import TextMaster.BackendLifecycle
import TextMaster.QuizAnswers
import TextMaster.RevealButton
import TextMaster.WordLimit
import TextMaster.BatchBalance
import TextMaster.StopRule
import TextMaster.KeyPoints
import TextMaster.ListMarkers
import TextMaster.KvCacheCore
import TextMaster.SlotSearch
import TextMaster.KvCacheBooks
import TextMaster.KvCacheLayout
import TextMaster.KvCacheDecode
import TextMaster.KvCacheRefinement
import TextMaster.DecoderSimulation
import TextMaster.RequestRefinement
import TextMaster.GreedyMerge
import TextMaster.SpmTokenizerCore
import TextMaster.LazyMerge
import TextMaster.SpmSession
import TextMaster.SpmGreedy
import TextMaster.SpmTokens
import TextMaster.SpmControl
import TextMaster.SpmReading
import TextMaster.SpmFragments
import TextMaster.SpmBuffer
import TextMaster.RequestBudget
import TextMaster.BulletPoints
import TextMaster.AnsweredRequest
import TextMaster.ServedSession
