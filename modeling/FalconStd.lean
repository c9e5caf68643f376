import FalconStd.Foundation.Run
import FalconStd.Foundation.Heap
import FalconStd.Foundation.Loop
import FalconStd.Foundation.Returns
import FalconStd.Foundation.Substring
import FalconStd.Foundation.Regex
import FalconStd.Foundation.Search
import FalconStd.Foundation.Rounding
import FalconStd.Foundation.Lines
import FalconStd.Foundation.Separation
import FalconStd.Collections.ArrayRuns
import FalconStd.Collections.Iterator
import FalconStd.Collections.MapRuns
import FalconStd.Collections.MapStore
import FalconStd.Collections.ArraySearch
import FalconStd.Control.DirectionLaws
import FalconStd.Control.GateMatching
import FalconStd.Control.DirectionStore
import FalconStd.Control.DirectionStoreProofs
import FalconStd.Control.ValueSemantics
import FalconStd.Control.Orthogonalize
import FalconStd.Control.ControlAxis
import FalconStd.Control.AxisDomain
import FalconStd.Control.AxisPoints
import FalconStd.Control.ShiftLaws
import FalconStd.Control.AxisIndexing
import FalconStd.Control.Objects
import FalconStd.Control.AxisStoreProofs
import FalconStd.Control.DerivedAxes
import FalconStd.Control.AxisFamily
import FalconStd.Control.ZeroOffsets
import FalconStd.Io.Capture
import FalconStd.Foundation.Session
import FalconStd.Io.CaptureHistory
import FalconStd.Io.CaptureRuns
import FalconStd.Io.BeginFailures
import FalconStd.Testing.TestContext
import FalconStd.Testing.TestRunner
import FalconStd.Testing.Harness
import FalconStd.Testing.FalsePass
import FalconStd.FalconCore.SettingMessages
import FalconStd.FalconCore.PortSearch
import FalconStd.FalconCore.Waveform
import FalconStd.FalconCore.Operands
import FalconStd.FalconCore.ContainerPairs
import FalconStd.Strings.Substitution
import FalconStd.Strings.StripAnsi
import FalconStd.Strings.Integers
import FalconStd.Strings.Slices
import FalconStd.Strings.Patterns
import FalconStd.Scripts.ManifestTwice
import FalconStd.Foundation.Once
import FalconStd.Log.LoggerRuns
import FalconStd.Database.ConnectionRuns
import FalconStd.Foundation.Barrier
import FalconStd.Strings.ReplaceLaws
import FalconStd.Strings.TrimSpace
import FalconStd.Strings.SearchLaws
import FalconStd.Control.AxisLines
import FalconStd.Control.DirectionMetric
import FalconStd.Testing.RunnerRuns
import FalconStd.Scripts.ManifestFrame
import FalconStd.Scripts.ManifestHistory
import FalconStd.Control.GateLines
import FalconStd.FalconCore.WaveformRuns
import FalconStd.Strings.FormatLaws
import FalconStd.FalconCore.ListConstructors
import FalconStd.Collections.IteratorStore
import FalconStd.Io.ReadLoop
import FalconStd.Strings.RegexObjects
import FalconStd.FalconCore.ArrayArithmetic
import FalconStd.FalconCore.ArrayExpressions
