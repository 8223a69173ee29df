import ManilaUtils.Text.PyStr
import ManilaUtils.Text.Binary64
import ManilaUtils.Text.PyFloat
import ManilaUtils.Text.SizeString
import ManilaUtils.Ssh.Injection
import ManilaUtils.Ssh.Pool
import ManilaUtils.Ssh.PoolAccounting
import ManilaUtils.Ssh.PoolOwnership
import ManilaUtils.Ssh.PoolReuse
import ManilaUtils.Retry.Tenacity
import ManilaUtils.Retry.Decorator
import ManilaUtils.Migration.AccessRules
import ManilaUtils.Classes.Walk
import ManilaUtils.Remote.Shell
import ManilaUtils.Remote.WriteFile
import ManilaUtils.Api.Params
